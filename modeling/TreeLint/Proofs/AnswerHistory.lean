/-
  Histories of a resolver.

  A resolver is asked questions while the program or the table behind it changes, and now and then its
  answers are dropped.  What two questions have in common is told by a key: the name, and the spans of
  the excluded nodes, each as often as it is there and in no order.  The kept answers are those to the
  first question of each key that was answered since answers were last dropped, so that a later
  question of that key gets the answer that was right at that time.
-/
import Mathlib.Data.Finset.Card
import Mathlib.Data.Multiset.Basic
import TreeLint.Proofs.Exclusion

set_option autoImplicit false

namespace TreeLint.Usage

open TreeLint.Json TreeLint.Syntax

/-! ## Keys -/

/-- The name that a question is about, and the ends of the excluded spans. -/
abbrev Key := String × Multiset (Int × Int)

/-- The key of the question about a name and the nodes that do not count. -/
def keyOf (name : String) (nodes : List Value) : Key :=
  (name, (nodes.filterMap extent? : List (Int × Int)))

/-- The order of spans by their starts, then by their ends. -/
def EndsLe (a b : Int × Int) : Prop :=
  a.1 < b.1 ∨ (a.1 = b.1 ∧ a.2 ≤ b.2)

instance (a b : Int × Int) : Decidable (EndsLe a b) :=
  inferInstanceAs (Decidable (_ ∨ _))

theorem EndsLe.antisymm {a b : Int × Int} (hab : EndsLe a b) (hba : EndsLe b a) : a = b := by
  unfold EndsLe at hab hba
  apply Prod.ext
  · omega
  · omega

/-- Pairs of ends in order. -/
def sortEnds (ends : List (Int × Int)) : List (Int × Int) :=
  ends.mergeSort fun a b => decide (EndsLe a b)

theorem pairwise_sortEnds (ends : List (Int × Int)) : (sortEnds ends).Pairwise EndsLe := by
  have htrans : ∀ a b c : Int × Int, decide (EndsLe a b) = true → decide (EndsLe b c) = true →
      decide (EndsLe a c) = true := by
    intro a b c hab hbc
    rw [decide_eq_true_eq] at hab hbc ⊢
    unfold EndsLe at hab hbc ⊢
    omega
  have htotal : ∀ a b : Int × Int, (decide (EndsLe a b) || decide (EndsLe b a)) = true := by
    intro a b
    rw [Bool.or_eq_true, decide_eq_true_eq, decide_eq_true_eq]
    unfold EndsLe
    omega
  have hsorted := List.pairwise_mergeSort htrans htotal ends
  exact hsorted.imp fun hle => of_decide_eq_true hle

end TreeLint.Usage

namespace TreeLint.Syntax.Span

/-- The ends of a span of whole numbers. -/
def ends (s : Span) : Int × Int :=
  s.wholeEnds?.getD (0, 0)

theorem IsWhole.wholeEnds?_eq {s : Span} (h : s.IsWhole) : s.wholeEnds? = some s.ends := by
  obtain ⟨pair, hpair⟩ := Option.isSome_iff_exists.mp (isWhole_iff.mp h)
  rw [ends, hpair, Option.getD_some]

/-- Spans of whole numbers are alike when they have the same ends. -/
theorem IsWhole.alike_iff {s t : Span} (hs : s.IsWhole) (ht : t.IsWhole) :
    s.alike t = true ↔ s.ends = t.ends := by
  obtain ⟨a, b, ha, hb⟩ := hs
  obtain ⟨c, d, hc, hd⟩ := ht
  simp only [alike, ends, wholeEnds?, ha, hb, hc, hd, alike_of_whole? ha hc, alike_of_whole? hb hd,
    Option.getD_some, Bool.and_eq_true, decide_eq_true_eq, Prod.mk.injEq]

/-- Rows of spans of whole numbers are alike in each place when they have the same ends. -/
theorem all_alike_iff {xs ys : List Span} (hxs : ∀ s ∈ xs, s.IsWhole) (hys : ∀ s ∈ ys, s.IsWhole) :
    (xs.length = ys.length ∧ ∀ pair ∈ xs.zip ys, pair.1.alike pair.2 = true) ↔
      xs.map ends = ys.map ends := by
  induction xs generalizing ys with
  | nil =>
    cases ys with
    | nil => simp
    | cons y ys => simp
  | cons x xs ih =>
    cases ys with
    | nil => simp
    | cons y ys =>
      have hhere := (hxs x List.mem_cons_self).alike_iff (hys y List.mem_cons_self)
      have hrest := ih (fun s hs => hxs s (List.mem_cons_of_mem _ hs))
        (fun s hs => hys s (List.mem_cons_of_mem _ hs))
      rw [List.map_cons, List.map_cons, List.cons.injEq, ← hhere, ← hrest]
      simp only [List.length_cons, Nat.succ_inj, List.zip_cons_cons, List.forall_mem_cons]
      exact and_left_comm

/-- Putting spans of whole numbers in order puts their ends in order. -/
theorem map_ends_of_sort {spans sorted : List Span} (h : ∀ s ∈ spans, s.IsWhole)
    (hsorted : Span.sort spans = .ok sorted) :
    sorted.map ends = Usage.sortEnds (spans.map ends) := by
  have hall : (spans.all fun s => s.wholeEnds?.isSome) = true :=
    List.all_eq_true.mpr fun s hs => isWhole_iff.mp (h s hs)
  rw [Span.sort, if_pos hall] at hsorted
  obtain rfl := Except.ok.inj hsorted
  apply List.map_mergeSort
  intro a ha b hb
  simp only [notAfter, (h a ha).wholeEnds?_eq, (h b hb).wholeEnds?_eq]
  rfl

end TreeLint.Syntax.Span

namespace TreeLint.Usage

open TreeLint.Json TreeLint.Syntax

namespace Question

/-- The question is plain and its excluded spans stand in order. -/
structure IsNormal (q : Question) : Prop where
  /-- It is about a text and spans of whole numbers. -/
  plain : q.IsPlain
  /-- The spans are in order. -/
  ordered : (q.excluded.map Span.ends).Pairwise EndsLe

/-- The key of a question. -/
def key (q : Question) : Key :=
  (q.name.text?.getD "", (q.excluded.map Span.ends : List (Int × Int)))

/-- Normal questions are alike when they have the same key. -/
theorem IsNormal.alike_iff {a b : Question} (ha : a.IsNormal) (hb : b.IsNormal) :
    a.alike b = true ↔ a.key = b.key := by
  obtain ⟨⟨⟨m, hm⟩, hxs⟩, haordered⟩ := ha
  obtain ⟨⟨⟨n, hn⟩, hys⟩, hbordered⟩ := hb
  have hends : (a.excluded.map Span.ends).Perm (b.excluded.map Span.ends) ↔
      a.excluded.map Span.ends = b.excluded.map Span.ends := by
    constructor
    · intro hperm
      exact hperm.eq_of_pairwise (fun x y _ _ hxy hyx => hxy.antisymm hyx) haordered hbordered
    · intro heq
      rw [heq]
  simp only [alike, key, hm, hn, Value.alike_str, Value.text?, Option.getD_some, Prod.mk.injEq,
    Multiset.coe_eq_coe, Bool.and_eq_true, beq_iff_eq, List.all_eq_true]
  rw [hends, ← Span.all_alike_iff hxs hys, and_assoc]

/-- The spans of excluded nodes have the ends of the nodes. -/
theorem map_ends_spans {nodes : List Value} {uses : List (Option Span)}
    (h : ∀ node ∈ nodes, HasPlainSpan node) (huses : nodes.mapM span = .ok uses) :
    (uses.filterMap id).map Span.ends = nodes.filterMap extent? := by
  have hrow := mapM_eq_ok_iff.mp huses
  clear huses
  induction hrow with
  | nil => rfl
  | @cons node use nodes uses hhere _ ih =>
    have hrest := ih fun other hother => h other (List.mem_cons_of_mem _ hother)
    obtain ⟨use', huse', hwhole⟩ := h node List.mem_cons_self
    obtain rfl : use = use' := Except.ok.inj (hhere.symm.trans huse')
    cases use with
    | none =>
      have hnode : extent? node = none := by rw [extent?, hhere]
      rw [List.filterMap_cons_none rfl, List.filterMap_cons_none hnode, hrest]
    | some s =>
      have hnode : extent? node = some s.ends := by
        rw [extent?, hhere]
        exact (hwhole s rfl).wholeEnds?_eq
      have hspans : (some s :: uses).filterMap id = s :: uses.filterMap id :=
        List.filterMap_cons_some rfl
      rw [hspans, List.filterMap_cons_some hnode, List.map_cons, hrest]

/-- A question about a text and nodes with plain spans can be put; it is normal and has the key of the
name and the nodes. -/
theorem exists_of_normal (name : String) {nodes : List Value}
    (h : ∀ node ∈ nodes, HasPlainSpan node) :
    ∃ q, Question.of (.str name) nodes = .ok q ∧ q.IsNormal ∧ q.key = keyOf name nodes := by
  obtain ⟨q, hq, hplain, hname, _⟩ := of_plain name h
  obtain ⟨spans, hspans, hrest⟩ := bind_eq_ok_iff.mp hq
  obtain ⟨uses, huses, hsort⟩ := bind_eq_ok_iff.mp hspans
  have hexcluded : q.excluded = spans := by
    split at hrest
    · cases hrest
      rfl
    · cases hrest
  have hwhole : ∀ s ∈ uses.filterMap id, s.IsWhole := by
    intro s hs
    obtain ⟨use, huse, hsome⟩ := List.mem_filterMap.mp hs
    obtain ⟨node, hnode, hspan⟩ := exists_of_mem_mapM huses huse
    obtain ⟨use', huse', hall⟩ := h node hnode
    obtain rfl : use = use' := Except.ok.inj (hspan.symm.trans huse')
    exact hall s hsome
  have hends : q.excluded.map Span.ends = sortEnds (nodes.filterMap extent?) := by
    rw [hexcluded, Span.map_ends_of_sort hwhole hsort, map_ends_spans h huses]
  refine ⟨q, hq, ⟨hplain, ?_⟩, ?_⟩
  · rw [hends]
    exact pairwise_sortEnds _
  · have hperm : (sortEnds (nodes.filterMap extent?)).Perm (nodes.filterMap extent?) :=
      List.mergeSort_perm _ _
    simp only [key, keyOf, hname, Value.text?, Option.getD_some, hends, Multiset.coe_eq_coe.mpr hperm]

end Question

/-! ## Events -/

/-- What can happen to a resolver. -/
inductive Event where
  /-- It is asked about a name and nodes that do not count. -/
  | ask (name : String) (nodes : List Value)
  /-- The program or the table behind it becomes another one. -/
  | change (strategy : Strategy)
  /-- Its answers are dropped. -/
  | forget

/-- The excluded nodes of a question have whole numbers for their spans, or none. -/
def Event.IsPlain : Event → Prop
  | .ask _ nodes => ∀ node ∈ nodes, HasPlainSpan node
  | _ => True

namespace Resolver

/-- The resolver after one event. -/
def next (resolver : Resolver) : Event → Resolver
  | .ask name nodes => (resolver.ask (.str name) nodes).2
  | .change strategy => { resolver with strategy := strategy }
  | .forget => resolver.forget

/-- The resolver after a row of events. -/
def after (resolver : Resolver) (events : List Event) : Resolver :=
  events.foldl next resolver

theorem after_append (resolver : Resolver) (events : List Event) (e : Event) :
    resolver.after (events ++ [e]) = (resolver.after events).next e := by
  simp [after]

/-- Letting the program become another one is a change. -/
theorem exists_setProgram_eq_next (resolver : Resolver) (program : Value) :
    ∃ strategy, resolver.setProgram program = resolver.next (.change strategy) := by
  unfold setProgram
  split
  · exact ⟨.scan program, rfl⟩
  · exact ⟨resolver.strategy, rfl⟩

/-- Setting an entry of the table is a change. -/
theorem exists_bind_eq_next {resolver changed : Resolver} {name occurrences : Value} {count : Nat}
    (h : resolver.bind name occurrences = .ok (count, changed)) :
    ∃ strategy, changed = resolver.next (.change strategy) := by
  unfold bind at h
  split at h
  · split at h
    · cases h
      exact ⟨_, rfl⟩
    · cases h
  · obtain ⟨items, _, heq⟩ := bind_eq_ok_iff.mp h
    cases heq
    exact ⟨_, rfl⟩
  · cases h
  · cases h

/-- A question that ends with a fault changes nothing. -/
theorem ask_of_error {resolver : Resolver} {name : Value} {nodes : List Value} {fault : Fault}
    (h : (resolver.ask name nodes).1 = .error fault) : (resolver.ask name nodes).2 = resolver := by
  unfold ask at h ⊢
  cases hq : Question.of name nodes with
  | error fault => rfl
  | ok q =>
    simp only [hq] at h
    cases hkept : resolver.kept? q with
    | some answer => simp only [hkept]
    | none =>
      simp only [hkept] at h ⊢
      cases hanswer : q.answer resolver.strategy with
      | error fault => rfl
      | ok answer =>
        rw [hanswer] at h
        cases h

end Resolver

/-! ## What was asked -/

/-- Of the events, those named `earlier` came first; then the question of the key was asked and
answered, and answers have not been dropped since. -/
def AskedAfter (start : Resolver) (events earlier : List Event) (key : Key) (answer : Bool) : Prop :=
  ∃ nodes later, events = earlier ++ .ask key.1 nodes :: later ∧ keyOf key.1 nodes = key ∧
    Event.forget ∉ later ∧ ((start.after earlier).ask (.str key.1) nodes).1 = .ok answer

/-- The question of the key has been answered since answers were last dropped. -/
def Answered (start : Resolver) (events : List Event) (key : Key) : Prop :=
  ∃ earlier answer, AskedAfter start events earlier key answer

/-- The question of the key has been answered since answers were last dropped, for the first time right
after the events named `earlier`. -/
structure FirstAsked (start : Resolver) (events earlier : List Event) (key : Key) (answer : Bool) :
    Prop where
  /-- It was asked and answered. -/
  asked : AskedAfter start events earlier key answer
  /-- It had not been answered before. -/
  fresh : ¬ Answered start earlier key

section Histories

variable {start : Resolver} {events earlier : List Event} {e : Event} {key : Key} {answer : Bool}

/-- What one more event adds to what was asked. -/
theorem askedAfter_append_iff :
    AskedAfter start (events ++ [e]) earlier key answer ↔
      (e ≠ .forget ∧ AskedAfter start events earlier key answer) ∨
        (earlier = events ∧ ∃ nodes, e = .ask key.1 nodes ∧ keyOf key.1 nodes = key ∧
          ((start.after events).ask (.str key.1) nodes).1 = .ok answer) := by
  constructor
  · rintro ⟨nodes, later, hsplit, hkey, hkeeps, hasked⟩
    -- The question is the last event, or the last event comes after it.
    rcases List.eq_nil_or_concat later with rfl | ⟨front, last, rfl⟩
    · obtain ⟨rfl, hlast⟩ := List.append_inj' hsplit rfl
      obtain rfl := List.singleton_inj.mp hlast
      exact .inr ⟨rfl, nodes, rfl, hkey, hasked⟩
    · rw [List.concat_eq_append] at hkeeps hsplit
      rw [← List.cons_append, ← List.append_assoc] at hsplit
      obtain ⟨rfl, hlast⟩ := List.append_inj' hsplit rfl
      obtain rfl := List.singleton_inj.mp hlast
      rw [List.mem_append, not_or, List.mem_singleton] at hkeeps
      exact .inl ⟨fun heq => hkeeps.2 heq.symm, nodes, front, rfl, hkey, hkeeps.1, hasked⟩
  · rintro (⟨hne, nodes, later, rfl, hkey, hkeeps, hasked⟩ | ⟨rfl, nodes, rfl, hkey, hasked⟩)
    · refine ⟨nodes, later ++ [e], by simp, hkey, ?_, hasked⟩
      rw [List.mem_append, not_or, List.mem_singleton]
      exact ⟨hkeeps, fun heq => hne heq.symm⟩
    · exact ⟨nodes, [], rfl, hkey, List.not_mem_nil, hasked⟩

/-- What was asked first stays so until answers are dropped. -/
theorem FirstAsked.append (h : FirstAsked start events earlier key answer) (he : e ≠ .forget) :
    FirstAsked start (events ++ [e]) earlier key answer :=
  ⟨askedAfter_append_iff.mpr (.inl ⟨he, h.asked⟩), h.fresh⟩

theorem not_answered_nil : ¬ Answered start [] key := by
  rintro ⟨earlier, answer, nodes, later, hsplit, _⟩
  cases earlier with
  | nil => cases hsplit
  | cons e rest => cases hsplit

end Histories

/-! ## What is kept -/

/-- The kept answers are those to the first questions of their keys. -/
structure Recorded (start : Resolver) (events : List Event) : Prop where
  /-- The questions are normal. -/
  normal : ∀ kept ∈ (start.after events).memo, kept.1.IsNormal
  /-- No key is kept twice. -/
  distinct : ((start.after events).memo.map fun kept => kept.1.key).Nodup
  /-- A kept answer was given when its key was first asked, and was worked out then. -/
  first : ∀ kept ∈ (start.after events).memo, ∃ earlier,
    FirstAsked start events earlier kept.1.key kept.2 ∧
      kept.1.answer (start.after earlier).strategy = .ok kept.2
  /-- What was asked and answered is kept. -/
  complete : ∀ key, Answered start events key →
    ∃ kept ∈ (start.after events).memo, kept.1.key = key

namespace Recorded

variable {start : Resolver} {events : List Event}

/-- A normal question has a kept answer when one of its key is kept. -/
theorem kept?_eq_some {q : Question} (h : Recorded start events) (hq : q.IsNormal) {answer : Bool}
    (hkept : (start.after events).kept? q = some answer) :
    ∃ kept ∈ (start.after events).memo, kept.1.key = q.key ∧ kept.2 = answer := by
  obtain ⟨kept, hfind, heq⟩ := Option.map_eq_some_iff.mp hkept
  have hmem := List.mem_of_find?_eq_some hfind
  have halike : kept.1.alike q = true := by simpa using List.find?_some hfind
  exact ⟨kept, hmem, ((h.normal kept hmem).alike_iff hq).mp halike, heq⟩

theorem key_ne_of_kept?_eq_none {q : Question} (h : Recorded start events) (hq : q.IsNormal)
    (hkept : (start.after events).kept? q = none) :
    ∀ kept ∈ (start.after events).memo, kept.1.key ≠ q.key := by
  intro kept hmem heq
  have hnone := List.find?_eq_none.mp (Option.map_eq_none_iff.mp hkept) kept hmem
  exact hnone (((h.normal kept hmem).alike_iff hq).mpr heq)

/-- An event that keeps the memo, and that is no question answered for the first time, keeps the
record. -/
theorem of_memo_eq (h : Recorded start events) {e : Event} (he : e ≠ .forget)
    (hmemo : (start.after (events ++ [e])).memo = (start.after events).memo)
    (hknown : ∀ name nodes answer, e = .ask name nodes →
      ((start.after events).ask (.str name) nodes).1 = .ok answer →
      ∃ kept ∈ (start.after events).memo, kept.1.key = keyOf name nodes) :
    Recorded start (events ++ [e]) := by
  refine ⟨?_, ?_, ?_, ?_⟩
  · rw [hmemo]
    exact h.normal
  · rw [hmemo]
    exact h.distinct
  · rw [hmemo]
    intro kept hkept
    obtain ⟨earlier, hfirst, hanswer⟩ := h.first kept hkept
    exact ⟨earlier, hfirst.append he, hanswer⟩
  · rw [hmemo]
    rintro key ⟨earlier, answer, hasked⟩
    rcases askedAfter_append_iff.mp hasked with ⟨_, hbefore⟩ | ⟨_, nodes, heq, hkey, hnow⟩
    · exact h.complete key ⟨earlier, answer, hbefore⟩
    · obtain ⟨kept, hmem, hkept⟩ := hknown key.1 nodes answer heq hnow
      exact ⟨kept, hmem, hkept.trans hkey⟩

/-- A question that is answered for the first time adds its answer. -/
theorem keep (h : Recorded start events) {name : String} {nodes : List Value} {q : Question}
    {answer : Bool} (hq : q.IsNormal) (hkey : q.key = keyOf name nodes)
    (hnew : ∀ kept ∈ (start.after events).memo, kept.1.key ≠ q.key)
    (hanswer : q.answer (start.after events).strategy = .ok answer)
    (hasked : ((start.after events).ask (.str name) nodes).1 = .ok answer)
    (hmemo : (start.after (events ++ [.ask name nodes])).memo =
      (start.after events).memo ++ [(q, answer)]) :
    Recorded start (events ++ [.ask name nodes]) := by
  have hne : Event.ask name nodes ≠ .forget := fun heq => Event.noConfusion heq
  have hname : q.key.1 = name := by rw [hkey, keyOf]
  refine ⟨?_, ?_, ?_, ?_⟩
  · rw [hmemo]
    intro kept hkept
    rcases List.mem_append.mp hkept with hkept | hkept
    · exact h.normal kept hkept
    · rw [List.mem_singleton.mp hkept]
      exact hq
  · rw [hmemo, List.map_append, List.nodup_append]
    refine ⟨h.distinct, List.nodup_singleton _, ?_⟩
    intro key hkept other hother
    obtain ⟨kept, hmem, rfl⟩ := List.mem_map.mp hkept
    rw [List.mem_singleton.mp hother]
    exact hnew kept hmem
  · rw [hmemo]
    intro kept hkept
    rcases List.mem_append.mp hkept with hkept | hkept
    · obtain ⟨earlier, hfirst, hworked⟩ := h.first kept hkept
      exact ⟨earlier, hfirst.append hne, hworked⟩
    · rw [List.mem_singleton.mp hkept]
      refine ⟨events, ⟨askedAfter_append_iff.mpr (.inr ⟨rfl, nodes, ?_, ?_, ?_⟩), ?_⟩, hanswer⟩
      · rw [hname]
      · rw [hname, hkey]
      · rw [hname]
        exact hasked
      · intro hbefore
        obtain ⟨kept, hmem, heq⟩ := h.complete q.key hbefore
        exact hnew kept hmem heq
  · rw [hmemo]
    rintro key ⟨earlier, answer', hafter⟩
    rcases askedAfter_append_iff.mp hafter with ⟨_, hbefore⟩ | ⟨_, nodes', heq, hkey', _⟩
    · obtain ⟨kept, hmem, hkept⟩ := h.complete key ⟨earlier, answer', hbefore⟩
      exact ⟨kept, List.mem_append_left _ hmem, hkept⟩
    · obtain ⟨rfl, rfl⟩ := Event.ask.inj heq
      refine ⟨(q, answer), List.mem_append_right _ (List.mem_singleton_self _), ?_⟩
      exact hkey.trans hkey'

/-- One more event keeps the record. -/
theorem step (h : Recorded start events) {e : Event} (he : e.IsPlain) :
    Recorded start (events ++ [e]) := by
  cases e with
  | ask name nodes =>
    obtain ⟨q, hq, hnormal, hkey⟩ := Question.exists_of_normal name he
    have hne : Event.ask name nodes ≠ .forget := fun heq => Event.noConfusion heq
    have hnext := Resolver.after_append start events (.ask name nodes)
    cases hkept : (start.after events).kept? q with
    | some answer =>
      have hask : (start.after events).ask (.str name) nodes = (.ok answer, start.after events) := by
        simp only [Resolver.ask, hq, hkept]
      refine h.of_memo_eq hne (by rw [hnext, Resolver.next, hask]) ?_
      intro name' nodes' answer' heq _
      obtain ⟨rfl, rfl⟩ := Event.ask.inj heq
      obtain ⟨kept, hmem, hsame, _⟩ := h.kept?_eq_some hnormal hkept
      exact ⟨kept, hmem, hsame.trans hkey⟩
    | none =>
      cases hanswer : q.answer (start.after events).strategy with
      | error fault =>
        have hask : (start.after events).ask (.str name) nodes =
            (.error fault, start.after events) := by
          simp only [Resolver.ask, hq, hkept, hanswer]
        refine h.of_memo_eq hne (by rw [hnext, Resolver.next, hask]) ?_
        intro name' nodes' answer' heq hok
        obtain ⟨rfl, rfl⟩ := Event.ask.inj heq
        rw [hask] at hok
        cases hok
      | ok answer =>
        have hask : (start.after events).ask (.str name) nodes = (.ok answer,
            { start.after events with memo := (start.after events).memo ++ [(q, answer)] }) := by
          simp only [Resolver.ask, hq, hkept, hanswer]
        exact h.keep hnormal hkey (h.key_ne_of_kept?_eq_none hnormal hkept) hanswer (by rw [hask])
          (by rw [hnext, Resolver.next, hask])
  | change strategy =>
    have hne : Event.change strategy ≠ .forget := fun heq => Event.noConfusion heq
    refine h.of_memo_eq hne (by rw [Resolver.after_append, Resolver.next]) ?_
    intro name nodes answer heq
    cases heq
  | forget =>
    have hmemo : (start.after (events ++ [.forget])).memo = [] := by
      rw [Resolver.after_append, Resolver.next, Resolver.forget]
    refine ⟨?_, ?_, ?_, ?_⟩
    · rw [hmemo]
      intro kept hkept
      cases hkept
    · rw [hmemo]
      exact List.nodup_nil
    · rw [hmemo]
      intro kept hkept
      cases hkept
    · rintro key ⟨earlier, answer, hasked⟩
      rcases askedAfter_append_iff.mp hasked with ⟨hne, _⟩ | ⟨_, nodes, heq, _⟩
      · exact absurd rfl hne
      · cases heq

/-- The record is kept through every history of a resolver that had answered nothing. -/
theorem run (strategy : Strategy) (events : List Event) (h : ∀ e ∈ events, e.IsPlain) :
    Recorded (Resolver.ofStrategy strategy) events := by
  induction events using List.reverseRecOn with
  | nil =>
    refine ⟨?_, List.nodup_nil, ?_, ?_⟩
    · intro kept hkept
      cases hkept
    · intro kept hkept
      cases hkept
    · intro key hanswered
      exact absurd hanswered not_answered_nil
  | append_singleton events e ih =>
    have hbefore := ih fun other hother => h other (List.mem_append_left _ hother)
    exact hbefore.step (h e (List.mem_append_right _ (List.mem_singleton_self e)))

/-- The number of kept answers is the number of keys that were answered since answers were last
dropped. -/
theorem memo_length (h : Recorded start events) :
    ∃ keys : Finset Key, (∀ key, key ∈ keys ↔ Answered start events key) ∧
      (start.after events).memo.length = keys.card := by
  refine ⟨((start.after events).memo.map fun kept => kept.1.key).toFinset, ?_, ?_⟩
  · intro key
    rw [List.mem_toFinset, List.mem_map]
    constructor
    · rintro ⟨kept, hmem, rfl⟩
      obtain ⟨earlier, hfirst, _⟩ := h.first kept hmem
      exact ⟨earlier, kept.2, hfirst.asked⟩
    · intro hanswered
      obtain ⟨kept, hmem, hkey⟩ := h.complete key hanswered
      exact ⟨kept, hmem, hkey⟩
  · rw [List.toFinset_card_of_nodup h.distinct, List.length_map]

/-- A question that is answered gets the answer that working it out gave when its key was first asked
since answers were last dropped. -/
theorem answer_eq (h : Recorded start events) {name : String} {nodes : List Value}
    (hplain : ∀ node ∈ nodes, HasPlainSpan node) {answer : Bool}
    (hasked : ((start.after events).ask (.str name) nodes).1 = .ok answer) :
    ∃ earlier, FirstAsked start (events ++ [.ask name nodes]) earlier (keyOf name nodes) answer ∧
      usedOutside (start.after earlier).strategy (.str name) nodes = .ok answer := by
  obtain ⟨q, hq, hnormal, hkey⟩ := Question.exists_of_normal name hplain
  have hne : Event.ask name nodes ≠ .forget := fun heq => Event.noConfusion heq
  have hworked : ∀ strategy, usedOutside strategy (.str name) nodes = q.answer strategy := by
    intro strategy
    rw [usedOutside, hq, ok_bind]
  cases hkept : (start.after events).kept? q with
  | some known =>
    have hanswer : known = answer := by
      simp only [Resolver.ask, hq, hkept] at hasked
      exact Except.ok.inj hasked
    subst hanswer
    obtain ⟨kept, hmem, hsame, rfl⟩ := h.kept?_eq_some hnormal hkept
    obtain ⟨earlier, hfirst, hfound⟩ := h.first kept hmem
    refine ⟨earlier, ?_, ?_⟩
    · rw [← hkey, ← hsame]
      exact hfirst.append hne
    · have halike : q.alike kept.1 = true := (hnormal.alike_iff (h.normal kept hmem)).mpr hsame.symm
      rw [hworked, Question.answer_congr hnormal.plain (h.normal kept hmem).plain halike]
      exact hfound
  | none =>
    have hfound : q.answer (start.after events).strategy = .ok answer := by
      simp only [Resolver.ask, hq, hkept] at hasked
      cases hanswer : q.answer (start.after events).strategy with
      | error fault =>
        rw [hanswer] at hasked
        cases hasked
      | ok found =>
        rw [hanswer] at hasked
        exact hasked
    refine ⟨events, ⟨askedAfter_append_iff.mpr (.inr ⟨rfl, nodes, rfl, rfl, hasked⟩), ?_⟩, ?_⟩
    · intro hbefore
      obtain ⟨kept, hmem, heq⟩ := h.complete _ hbefore
      exact h.key_ne_of_kept?_eq_none hnormal hkept kept hmem (heq.trans hkey.symm)
    · rw [hworked]
      exact hfound

end Recorded

/-! ## Histories without changes -/

/-- As long as nothing changes, a resolver stays faithful to what it started from. -/
theorem isFaithful_after (strategy : Strategy) {events : List Event} (h : ∀ e ∈ events, e.IsPlain)
    (hsame : ∀ changed, Event.change changed ∉ events) :
    ((Resolver.ofStrategy strategy).after events).IsFaithful ∧
      ((Resolver.ofStrategy strategy).after events).strategy = strategy := by
  induction events using List.reverseRecOn with
  | nil => exact ⟨Resolver.isFaithful_ofStrategy strategy, rfl⟩
  | append_singleton events e ih =>
    obtain ⟨hfaithful, hstrategy⟩ := ih (fun other hother => h other (List.mem_append_left _ hother))
      (fun changed hmem => hsame changed (List.mem_append_left _ hmem))
    have hlast : e ∈ events ++ [e] := List.mem_append_right _ (List.mem_singleton_self e)
    rw [Resolver.after_append]
    cases e with
    | ask name nodes =>
      obtain ⟨q, hq, hnormal, _⟩ := Question.exists_of_normal name (h _ hlast)
      obtain ⟨_, hafter, hkept⟩ := hfaithful.ask hq hnormal.plain
      exact ⟨hafter, hkept.trans hstrategy⟩
    | change changed => exact absurd hlast (hsame changed)
    | forget =>
      refine ⟨?_, hstrategy⟩
      intro kept hkept
      cases hkept

/-- Kept answers over whole histories.  Each question that is answered gets the answer that working it
out would have given when a question of its key was first answered since answers were last dropped; a
question that ends with a fault and every change leave the memo as it is; and the memo has one entry
for each key that was answered since answers were last dropped.  As long as nothing changes, every
outcome is that of a resolver that has answered nothing. -/
theorem ask_over_history (strategy : Strategy) (events : List Event)
    (hplain : ∀ e ∈ events, e.IsPlain) :
    let start := Resolver.ofStrategy strategy
    (∀ earlier name nodes later answer, events = earlier ++ .ask name nodes :: later →
      ((start.after earlier).ask (.str name) nodes).1 = .ok answer →
      ∃ first, FirstAsked start (earlier ++ [.ask name nodes]) first (keyOf name nodes) answer ∧
        usedOutside (start.after first).strategy (.str name) nodes = .ok answer) ∧
    (∀ earlier name nodes later fault, events = earlier ++ .ask name nodes :: later →
      ((start.after earlier).ask (.str name) nodes).1 = .error fault →
      (start.after (earlier ++ [.ask name nodes])).memo = (start.after earlier).memo) ∧
    (∀ resolver changed, (Resolver.next resolver (.change changed)).memo = resolver.memo) ∧
    (∀ resolver program, ∃ changed,
      Resolver.setProgram resolver program = resolver.next (.change changed)) ∧
    (∀ resolver name occurrences count changed,
      Resolver.bind resolver name occurrences = .ok (count, changed) →
      ∃ strategy, changed = resolver.next (.change strategy)) ∧
    (∃ keys : Finset Key, (∀ key, key ∈ keys ↔ Answered start events key) ∧
      (start.after events).memo.length = keys.card) ∧
    ((∀ changed, Event.change changed ∉ events) →
      ∀ earlier name nodes later, events = earlier ++ .ask name nodes :: later →
        ((start.after earlier).ask (.str name) nodes).1 = (start.ask (.str name) nodes).1) := by
  intro start
  have hearlier : ∀ {earlier e later}, events = earlier ++ e :: later →
      (∀ other ∈ earlier, other.IsPlain) ∧ e.IsPlain := by
    intro earlier e later hsplit
    rw [hsplit] at hplain
    refine ⟨fun other hother => hplain other (List.mem_append_left _ hother), ?_⟩
    exact hplain e (List.mem_append_right _ List.mem_cons_self)
  refine ⟨?_, ?_, ?_, Resolver.exists_setProgram_eq_next, ?_, ?_, ?_⟩
  · intro earlier name nodes later answer hsplit hasked
    obtain ⟨hbefore, hnodes⟩ := hearlier hsplit
    exact (Recorded.run strategy earlier hbefore).answer_eq hnodes hasked
  · intro earlier name nodes later fault _ hfault
    rw [Resolver.after_append, Resolver.next, Resolver.ask_of_error hfault]
  · intro resolver changed
    rw [Resolver.next]
  · intro resolver name occurrences count changed hbind
    exact Resolver.exists_bind_eq_next hbind
  · exact (Recorded.run strategy events hplain).memo_length
  · intro hsame earlier name nodes later hsplit
    obtain ⟨hbefore, hnodes⟩ := hearlier hsplit
    obtain ⟨q, hq, hnormal, _⟩ := Question.exists_of_normal name hnodes
    have hunchanged : ∀ changed, Event.change changed ∉ earlier := by
      intro changed hmem
      exact hsame changed (hsplit ▸ List.mem_append_left _ hmem)
    obtain ⟨hfaithful, hstrategy⟩ := isFaithful_after strategy hbefore hunchanged
    rw [(hfaithful.ask hq hnormal.plain).1, hstrategy]
    exact ((Resolver.isFaithful_ofStrategy strategy).ask hq hnormal.plain).1.symm

/-- After the table has changed, a question with the same spans gets the answer of before. -/
theorem ask_over_history_stale :
    let block := Value.obj [("type", .str "BlockStatement"), ("start", .int 0), ("end", .int 9)]
    let bare := Value.obj [("type", .str "EmptyStatement")]
    let use := Value.obj [("start", .int 20), ("end", .int 21)]
    let start := Resolver.ofStrategy (.table (Table.ofFields [("x", .arr [use])]))
    let changed := Strategy.table (Table.ofFields [])
    let earlier := [Event.ask "x" [bare, block], .change changed]
    (∀ e ∈ earlier ++ [.ask "x" [block]], e.IsPlain) ∧
      usedOutside changed (.str "x") [block] = .ok false ∧
      ∃ first, FirstAsked start (earlier ++ [.ask "x" [block]]) first (keyOf "x" [block]) true ∧
        usedOutside (start.after first).strategy (.str "x") [block] = .ok true := by
  intro block bare use start changed earlier
  have hblock : HasPlainSpan block := by
    refine ⟨some ⟨.int 0, .int 9⟩, rfl, ?_⟩
    intro s hs
    cases hs
    exact ⟨0, 9, rfl, rfl⟩
  have hbare : HasPlainSpan bare := ⟨none, rfl, fun s hs => nomatch hs⟩
  have hplain : ∀ e ∈ earlier ++ [.ask "x" [block]], e.IsPlain := by
    intro e he
    simp only [earlier, List.cons_append, List.nil_append, List.mem_cons, List.not_mem_nil,
      or_false] at he
    rcases he with rfl | rfl | rfl
    · intro node hnode
      simp only [List.mem_cons, List.not_mem_nil, or_false] at hnode
      rcases hnode with rfl | rfl
      · exact hbare
      · exact hblock
    · trivial
    · intro node hnode
      rw [List.mem_singleton.mp hnode]
      exact hblock
  have hasked : ((start.after earlier).ask (.str "x") [block]).1 = .ok true :=
    toOption_eq_some_iff.mp (by decide +kernel)
  refine ⟨hplain, toOption_eq_some_iff.mp (by decide +kernel), ?_⟩
  exact (ask_over_history _ (earlier ++ [.ask "x" [block]]) hplain).1 earlier "x" [block] [] true rfl
    hasked

end TreeLint.Usage
