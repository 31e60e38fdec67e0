/-
  The order of what a run reports.

  The diagnostics of a run are those of its reports, each once, by the offsets at which they start and at one
  offset as they were reported.  Lines and columns grow with the offset, so that the diagnostics stand in
  the order of lines and columns too, as long as their places are worked out from offsets.
-/
import TreeLint.Proofs.Reports

set_option autoImplicit false

namespace TreeLint.Source

open TreeLint.Json TreeLint.Syntax

/-! ## Lines and columns -/

/-- A place by numbers that does not come after another one: by the line, then by the column. -/
def Location.NotAfter (a b : Location) : Prop :=
  ∃ line column line' column' : Int, a = ⟨.int line, .int column⟩ ∧ b = ⟨.int line', .int column'⟩ ∧
    (line < line' ∨ line = line' ∧ column ≤ column')

/-- The lines that do not start after an offset. -/
theorem linesBefore_whole (starts : List Nat) (n : Int) :
    linesBefore starts (.whole n) = starts.countP fun start : Nat => decide ((start : Int) ≤ n) := by
  rw [linesBefore, List.countP_eq_length_filter]
  congr 2
  funext start
  simp only [Number.precedes, Number.compare?]
  rcases Int.lt_trichotomy n start with h | h | h
  · simp [compare, compareOfLessAndEq, h]
  · simp [compare, compareOfLessAndEq, h]
  · simp [compare, compareOfLessAndEq, Int.not_lt.mpr (Int.le_of_lt h), (Int.ne_of_lt h).symm,
      Int.le_of_lt h]

/-- A later offset is in the same line or in a later one, and in the same line it is further on. -/
theorem locate_notAfter (starts : List Nat) {m n : Int} (h : m ≤ n) :
    (locate starts (.whole m)).NotAfter (locate starts (.whole n)) := by
  refine ⟨_, _, _, _, rfl, rfl, ?_⟩
  have hlines : linesBefore starts (.whole m) ≤ linesBefore starts (.whole n) := by
    rw [linesBefore_whole, linesBefore_whole]
    refine List.countP_mono_left fun start _ hstart => ?_
    simp only [decide_eq_true_eq] at hstart ⊢
    omega
  -- A line starts at one offset, whichever offset in it is located.
  rcases Nat.lt_or_eq_of_le hlines with hless | hsame
  · left
    omega
  · right
    rw [hsame]
    omega

/-- The place of the node is worked out from a whole number. -/
def startsPlainly (node : Value) : Bool :=
  match ownLocation? node, span node with
  | .ok none, .ok (some s) => s.start.whole?.isSome
  | _, _ => false

theorem startsPlainly_iff {node : Value} :
    startsPlainly node = true ↔ ownLocation? node = .ok none ∧
      ∃ s n, span node = .ok (some s) ∧ s.start.whole? = some n := by
  unfold startsPlainly
  split
  · next s hown hspan =>
    rw [hown, hspan, Option.isSome_iff_exists]
    simp
  · next hother =>
    refine ⟨fun h => absurd h Bool.false_ne_true, ?_⟩
    rintro ⟨hown, s, _, hspan, _⟩
    exact (hother s hown hspan).elim

end TreeLint.Source

namespace TreeLint.Rule

open TreeLint.Json TreeLint.Syntax TreeLint.Source

/-- The diagnostic stands where its offset is in the text. -/
def Located (text : Value) (d : Diagnostic) : Prop :=
  ∃ starts n, startsOf text = .ok starts ∧ d.position = n ∧ d.location = locate starts (.whole n)

theorem located_of_standsFor {text node : Value} {rule : Rule} {id : String} {d : Diagnostic}
    (h : StandsFor ⟨text⟩ rule id node d) (htext : text ≠ .null) (hplain : startsPlainly node = true) :
    Located text d := by
  obtain ⟨hown, s, n, hspan, hstart⟩ := startsPlainly_iff.mp hplain
  have hd : d.span = some s := Except.ok.inj (h.span.symm.trans hspan)
  have hlocation := h.location
  rw [locationOf, hown, ok_bind, hspan, ok_bind] at hlocation
  dsimp only at hlocation
  rw [if_neg fun hnull => htext (isNull_iff.mp hnull), locationOfSpan, number?_of_whole? hstart] at hlocation
  obtain ⟨starts, hstarts, heq⟩ := bind_eq_ok_iff.mp hlocation
  refine ⟨starts, n, hstarts, ?_, (Except.ok.inj heq).symm⟩
  rw [Diagnostic.position, Diagnostic.start, hd]
  simp [hstart]

/-- Diagnostics that are located in one text are in the order of lines and columns when they are in the
order of their offsets. -/
theorem Ordered.notAfter {ds : List Diagnostic} (h : Ordered ds) (text : Value)
    (hlocated : ∀ d ∈ ds, Located text d) :
    ds.Pairwise fun a b => a.location.NotAfter b.location := by
  refine List.Pairwise.imp_of_mem (fun {a b} ha hb hle => ?_) h
  obtain ⟨starts, m, hstarts, hm, hlocation⟩ := hlocated a ha
  obtain ⟨starts', n, hstarts', hn, hlocation'⟩ := hlocated b hb
  cases hstarts.symm.trans hstarts'
  rw [hlocation, hlocation']
  exact locate_notAfter starts (hm ▸ hn ▸ hle)

/-- The order of the diagnostics of a run.  They are those that are written for the reports of the run, none
lost and none twice; they are in the order of the whole numbers at which they start, where any other start
counts as the last position, and those at one position stand as they were reported, in the order of the nodes
and at one node in that of the rules.  With a text, and when each reported node has no place of its own and
starts at a whole number, the lines and columns of the diagnostics are in order too. -/
theorem run_in_order (engine : Engine) (program text bindings : Value) (ds : List Diagnostic)
    (h : engine.run program text bindings = .ok ds) :
    ∃ (made : List Report) (written : List Diagnostic),
      engine.reports program text bindings = .ok made ∧
      List.Forall₂ (fun r d => Report.write r = .ok d) made written ∧
      ds.Perm written ∧ Ordered ds ∧ (∀ n, atPosition n ds = atPosition n written) ∧
      (text ≠ .null → (∀ r ∈ made, startsPlainly r.finding.node = true) →
        ds.Pairwise fun a b => a.location.NotAfter b.location) := by
  obtain ⟨made, written, hmade, hwritten, rfl⟩ := Engine.exists_reports h
  refine ⟨made, written, hmade, hwritten, inOrder_perm written, ordered_inOrder written,
    fun n => atPosition_inOrder n written, fun htext hplain => ?_⟩
  refine (ordered_inOrder written).notAfter text fun d hd => ?_
  obtain ⟨r, hr, hwrite⟩ := exists_of_mem_mapM (mapM_eq_ok_iff.mpr hwritten)
    ((inOrder_perm written).mem_iff.mp hd)
  obtain ⟨_, hsource, _⟩ := Engine.turn_of_mem_reports hmade hr
  have hstands := standsFor_of_report hwrite
  rw [hsource] at hstands
  exact located_of_standsFor hstands htext (hplain r hr)

/-- Two rules on a switch statement at 5, a conditional with another branch at 1, and a switch statement at 5
again: at 5 the two statements stand as in the program, and the lines and columns are in order. -/
theorem run_in_order_branches :
    let choice (stop : Int) : Value :=
      .obj [("type", .str "SwitchStatement"), ("start", .int 5), ("end", .int stop)]
    let branch : Value :=
      .obj [("type", .str "EmptyStatement"), ("start", .bool true), ("end", .int 2)]
    let conditional : Value := .obj [("type", .str "IfStatement"), ("alternate", branch)]
    let program : Value :=
      .obj [("type", .str "Program"), ("body", .arr [choice 9, conditional, choice 7])]
    let text : Value := .str "ab\ncdefgh"
    let engine : Engine := ⟨[.noElse, .noSwitch], .null, false⟩
    ∃ ds made, engine.run program text .null = .ok ds ∧ engine.reports program text .null = .ok made ∧
      (∀ r ∈ made, startsPlainly r.finding.node = true) ∧
      (atPosition 1 ds).map (fun d => d.stop.whole?) = [some 2] ∧
      (atPosition 5 ds).map (fun d => d.stop.whole?) = [some 9, some 7] ∧ Ordered ds ∧
      ds.Pairwise fun a b => a.location.NotAfter b.location := by
  intro choice branch conditional program text engine
  have hsome : (checkVisits (engine.contexts [] text .null) program
      (traverse [⟨[], program⟩])).toOption.isSome = true := by decide +kernel
  obtain ⟨found, hfound⟩ := Option.isSome_iff_exists.mp hsome
  have hrun : engine.run program text .null = .ok (inOrder found) :=
    run_eq_ok_iff.mpr ⟨[], _, found, rfl, rfl, toOption_eq_some_iff.mp hfound, rfl⟩
  obtain ⟨made, written, hmade, hwritten, _, hordered, hkept, hplaces⟩ :=
    run_in_order engine program text .null _ hrun
  have hplain : (engine.reports program text .null).toOption.map
      (fun made => made.all fun r => startsPlainly r.finding.node) = some true := by decide +kernel
  have hstops : ((engine.reports program text .null) >>= fun made => made.mapM Report.write).toOption.map
      (fun ds => ((atPosition 1 ds).map fun d => d.stop.whole?,
        (atPosition 5 ds).map fun d => d.stop.whole?)) = some ([some 2], [some 9, some 7]) := by
    decide +kernel
  rw [hmade] at hplain
  rw [hmade, ok_bind, mapM_eq_ok_iff.mpr hwritten] at hstops
  obtain ⟨hfirst, hsecond⟩ := Prod.mk.inj (Option.some.inj hstops)
  have hplain := List.all_eq_true.mp (Option.some.inj hplain)
  refine ⟨_, made, hrun, hmade, hplain, ?_, ?_, hordered, hplaces (by simp [text]) hplain⟩
  · rw [hkept]
    exact hfirst
  · rw [hkept]
    exact hsecond

end TreeLint.Rule
