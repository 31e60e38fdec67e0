/-
  Excluding uses by spans.

  The answer to a question about spans of whole numbers says whether some use lies in none of the
  excluded spans: it depends neither on the order of the uses nor on the order of the excluded nodes.
  A resolver that keeps answers gives those that working them out anew would give.
-/
import TreeLint.Proofs.Span
import TreeLint.Usage.Query

set_option autoImplicit false

namespace TreeLint.Usage

open TreeLint.Json TreeLint.Syntax

/-! ## Uses outside -/

/-- The use lies in none of the excluded spans; one without a span lies in none. -/
def Outside (excluded : List Span) (use : Option Span) : Prop :=
  ∀ s, use = some s → ∀ outer ∈ excluded, ¬ s.Within outer

/-- The search for a use outside ends at the first one, and says whether there is any. -/
theorem anyOutside_decides {excluded : List Span} {uses : List (Option Span)}
    (hexcluded : ∀ s ∈ excluded, s.IsWhole)
    (huses : ∀ use ∈ uses, ∀ s, use = some s → s.IsWhole) :
    Decides (anyOutside excluded (uses.map .ok)) (∃ use ∈ uses, Outside excluded use) := by
  induction uses with
  | nil => exact .inr ⟨rfl, by simp⟩
  | cons use rest ih =>
    have hrest := ih fun other hother => huses other (List.mem_cons_of_mem _ hother)
    cases use with
    | none => exact .inl ⟨rfl, none, List.mem_cons_self, fun s hs => by cases hs⟩
    | some s =>
      have hs : s.IsWhole := huses (some s) List.mem_cons_self s rfl
      have hany : Decides (excluded.anyM fun outer => s.inside outer)
          (∃ outer ∈ excluded, s.Within outer) :=
        Decides.anyM fun outer houter => Span.inside_decides hs (hexcluded outer houter)
      rw [List.map_cons, anyOutside]
      refine hany.bind (fun hinside => ?_) (fun hinside => ?_)
      · refine hrest.congr ?_
        have hhere : ¬ Outside excluded (some s) := by
          obtain ⟨outer, houter, hwithin⟩ := hinside
          exact fun hout => hout s rfl outer houter hwithin
        simp [hhere]
      · refine .inl ⟨rfl, some s, List.mem_cons_self, ?_⟩
        rintro _ ⟨⟩ outer houter hwithin
        exact hinside ⟨outer, houter, hwithin⟩

/-! ## Questions -/

/-- The spans of excluded nodes are read and put in order; none is lost and none is added. -/
theorem excludedSpans_eq {nodes : List Value} (h : ∀ node ∈ nodes, HasPlainSpan node) :
    ∃ spans, excludedSpans nodes = .ok spans ∧
      ∀ s, s ∈ spans ↔ ∃ node ∈ nodes, span node = .ok (some s) := by
  have hread : ∃ uses, nodes.mapM span = .ok uses ∧ (∀ use ∈ uses, ∀ s, use = some s → s.IsWhole) ∧
      ∀ s, some s ∈ uses ↔ ∃ node ∈ nodes, span node = .ok (some s) := by
    induction nodes with
    | nil => exact ⟨[], rfl, by simp, by simp⟩
    | cons node rest ih =>
      obtain ⟨use, hspan, hwhole⟩ := h node List.mem_cons_self
      obtain ⟨uses, hrest, hall, hmem⟩ := ih fun other hother => h other (List.mem_cons_of_mem _ hother)
      refine ⟨use :: uses, ?_, ?_, fun s => ?_⟩
      · rw [List.mapM_cons, hspan, hrest]
        rfl
      · intro other hother
        rcases List.mem_cons.mp hother with rfl | hother
        · exact hwhole
        · exact hall other hother
      · rw [List.mem_cons, hmem s]
        simp [hspan, eq_comm]
  obtain ⟨uses, huses, hwhole, hmem⟩ := hread
  have hspans : ∀ s ∈ uses.filterMap id, s.IsWhole := by
    intro s hs
    obtain ⟨use, huse, heq⟩ := List.mem_filterMap.mp hs
    exact hwhole use huse s heq
  obtain ⟨sorted, hsorted, hperm⟩ := Span.exists_sort hspans
  refine ⟨sorted, ?_, fun s => ?_⟩
  · rw [excludedSpans, huses, ok_bind, hsorted]
  · rw [hperm.mem_iff, List.mem_filterMap, ← hmem s]
    simp

/-- Rows of spans of the same whole numbers exclude the same use. -/
theorem anyM_inside_congr {xs ys : List Span} (hxs : ∀ s ∈ xs, s.IsWhole)
    (hys : ∀ s ∈ ys, s.IsWhole) (hlength : xs.length = ys.length)
    (h : ∀ pair ∈ xs.zip ys, pair.1.alike pair.2 = true) (use : Span) :
    (xs.anyM fun outer => use.inside outer) = ys.anyM fun outer => use.inside outer := by
  induction xs generalizing ys with
  | nil =>
    rw [List.eq_nil_of_length_eq_zero hlength.symm]
  | cons x xs ih =>
    cases ys with
    | nil => cases hlength
    | cons y ys =>
      have hhead : use.inside x = use.inside y :=
        Span.inside_congr (hxs x List.mem_cons_self) (hys y List.mem_cons_self)
          (h (x, y) List.mem_cons_self) use
      have htail := ih (fun s hs => hxs s (List.mem_cons_of_mem _ hs))
        (fun s hs => hys s (List.mem_cons_of_mem _ hs)) (Nat.succ.inj hlength)
        (fun pair hpair => h pair (List.mem_cons_of_mem _ hpair))
      rw [List.anyM_cons, List.anyM_cons, hhead, htail]

/-- Rows that exclude the same uses leave the same answer. -/
theorem anyOutside_congr {xs ys : List Span}
    (h : ∀ use : Span, (xs.anyM fun outer => use.inside outer) = ys.anyM fun outer => use.inside outer)
    (uses : List (Except Fault (Option Span))) : anyOutside xs uses = anyOutside ys uses := by
  induction uses with
  | nil => rfl
  | cons use rest ih =>
    match use with
    | .error fault => rfl
    | .ok none => rfl
    | .ok (some s) => rw [anyOutside, anyOutside, h s, ih]

namespace Question

/-- The question is about a text and spans of whole numbers. -/
def IsPlain (q : Question) : Prop :=
  (∃ n, q.name = .str n) ∧ ∀ s ∈ q.excluded, s.IsWhole

/-- A question about a text and nodes with plain spans can be put, and is plain. -/
theorem of_plain {nodes : List Value} (n : String) (h : ∀ node ∈ nodes, HasPlainSpan node) :
    ∃ q, Question.of (.str n) nodes = .ok q ∧ q.IsPlain ∧ q.name = .str n ∧
      ∀ s, s ∈ q.excluded ↔ ∃ node ∈ nodes, span node = .ok (some s) := by
  obtain ⟨spans, hspans, hmem⟩ := excludedSpans_eq h
  have hwhole : ∀ s ∈ spans, s.IsWhole := by
    intro s hs
    obtain ⟨node, hnode, hspan⟩ := (hmem s).mp hs
    obtain ⟨use, huse, hall⟩ := h node hnode
    rw [hspan] at huse
    exact hall s (Except.ok.inj huse).symm
  have hkeys : spans.all Span.isKey = true :=
    List.all_eq_true.mpr fun s hs => (hwhole s hs).isKey
  refine ⟨⟨.str n, spans⟩, ?_, ⟨⟨n, rfl⟩, hwhole⟩, rfl, hmem⟩
  rw [Question.of, hspans, ok_bind, if_pos (by simp [Value.isKey, hkeys])]
  rfl

/-- Plain questions that are alike have the same answer, whatever the uses are. -/
theorem answer_congr {a b : Question} (ha : a.IsPlain) (hb : b.IsPlain) (h : a.alike b = true)
    (strategy : Strategy) : a.answer strategy = b.answer strategy := by
  obtain ⟨⟨n, hn⟩, hawhole⟩ := ha
  obtain ⟨⟨m, hm⟩, hbwhole⟩ := hb
  simp only [Question.alike, Bool.and_eq_true, beq_iff_eq, List.all_eq_true] at h
  obtain ⟨⟨hname, hlength⟩, hspans⟩ := h
  rw [hn, hm, Value.alike_str, beq_iff_eq] at hname
  rw [answer, answer, hn, hm, hname]
  exact anyOutside_congr (anyM_inside_congr hawhole hbwhole hlength hspans) _

end Question

/-! ## Kept answers -/

namespace Resolver

/-- Every kept answer belongs to a plain question, and is the one that working it out anew gives. -/
def IsFaithful (resolver : Resolver) : Prop :=
  ∀ kept ∈ resolver.memo, kept.1.IsPlain ∧ kept.1.answer resolver.strategy = .ok kept.2

theorem isFaithful_ofStrategy (strategy : Strategy) : (ofStrategy strategy).IsFaithful := by
  intro kept hkept
  cases hkept

/-- A kept answer to a plain question is the one that working it out anew gives. -/
theorem IsFaithful.kept {resolver : Resolver} (h : resolver.IsFaithful) {q : Question}
    (hplain : q.IsPlain) {answer : Bool} (hkept : resolver.kept? q = some answer) :
    q.answer resolver.strategy = .ok answer := by
  obtain ⟨entry, hfind, rfl⟩ := Option.map_eq_some_iff.mp hkept
  obtain ⟨hentry, hanswer⟩ := h entry (List.mem_of_find?_eq_some hfind)
  have halike : entry.1.alike q = true := by simpa using List.find?_some hfind
  rw [← hanswer]
  exact (Question.answer_congr hentry hplain halike _).symm

/-- Keeping the answer to a plain question keeps a resolver faithful. -/
theorem IsFaithful.keep {resolver : Resolver} (h : resolver.IsFaithful) {q : Question}
    (hplain : q.IsPlain) {answer : Bool} (hanswer : q.answer resolver.strategy = .ok answer) :
    IsFaithful { resolver with memo := resolver.memo ++ [(q, answer)] } := by
  intro kept hkept
  rcases List.mem_append.mp hkept with hkept | hkept
  · exact h kept hkept
  · obtain rfl := List.mem_singleton.mp hkept
    exact ⟨hplain, hanswer⟩

/-- One question to a faithful resolver: the answer is the one that working it out gives, the
resolver stays faithful, and the uses still come from the same place. -/
theorem IsFaithful.ask {resolver : Resolver} (h : resolver.IsFaithful) {name : Value}
    {nodes : List Value} {q : Question} (hq : Question.of name nodes = .ok q)
    (hplain : q.IsPlain) :
    (resolver.ask name nodes).1 = usedOutside resolver.strategy name nodes ∧
      (resolver.ask name nodes).2.IsFaithful ∧
      (resolver.ask name nodes).2.strategy = resolver.strategy := by
  rw [usedOutside, hq, ok_bind, Resolver.ask, hq]
  simp only
  cases hkept : resolver.kept? q with
  | some answer => exact ⟨(h.kept hplain hkept).symm, h, rfl⟩
  | none =>
    cases hanswer : q.answer resolver.strategy with
    | error fault => exact ⟨rfl, h, rfl⟩
    | ok answer => exact ⟨rfl, h.keep hplain hanswer, rfl⟩

end Resolver

end TreeLint.Usage
