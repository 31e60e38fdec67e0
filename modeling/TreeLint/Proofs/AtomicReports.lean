/-
  Sequences of reports.

  The line starts of a text are worked out for the first report that needs them, and kept for the reports
  after it.  What is kept is always what would be worked out again.  So each report of a sequence ends as it
  would if it were the only one, the diagnostics are those of the reports that did not fail, and a report that
  fails leaves no trace in them or in the reports after it.
-/
import TreeLint.Proofs.Reports

set_option autoImplicit false

/-! ## Kept line starts -/

namespace TreeLint.Source

open TreeLint.Json TreeLint.Syntax

variable {source : Source} {α β : Type}

/-- What is kept are the line starts of the text. -/
def Faithful (source : Source) (kept : Option (List Nat)) : Prop :=
  ∀ starts, kept = some starts → startsOf source.text = .ok starts

/-- Whatever is kept, the steps have the outcome, and they keep nothing but the line starts of the text. -/
def Computes (source : Source) (steps : Keeping α) (outcome : Except Fault α) : Prop :=
  ∀ kept, source.Faithful kept →
    ∃ later, source.Faithful later ∧ steps.run.run kept = (outcome, later)

namespace Computes

/-- Steps that keep nothing. -/
theorem lift (outcome : Except Fault α) : source.Computes (liftM outcome) outcome :=
  fun kept h => ⟨kept, h, rfl⟩

theorem ok (a : α) : source.Computes (pure a) (.ok a) :=
  fun kept h => ⟨kept, h, rfl⟩

theorem fails (fault : Fault) : source.Computes (throw fault : Keeping α) (.error fault) :=
  fun kept h => ⟨kept, h, rfl⟩

/-- Steps after steps. -/
theorem bind {steps : Keeping α} {outcome : Except Fault α} {next : α → Keeping β}
    {result : α → Except Fault β} (h : source.Computes steps outcome)
    (hnext : ∀ a, source.Computes (next a) (result a)) :
    source.Computes (steps >>= next) (outcome >>= result) := by
  intro kept hkept
  obtain ⟨later, hlater, heq⟩ := h kept hkept
  cases outcome with
  | error fault =>
    refine ⟨later, hlater, ?_⟩
    rw [ExceptT.run_bind, StateT.run_bind, heq]
    rfl
  | ok a =>
    obtain ⟨last, hlast, hresult⟩ := hnext a later hlater
    refine ⟨last, hlast, ?_⟩
    rw [ExceptT.run_bind, StateT.run_bind, heq]
    exact hresult

end Computes

/-- The line starts are the same, kept or not. -/
theorem computes_keptStarts (source : Source) : source.Computes source.keptStarts (startsOf source.text) := by
  intro kept hkept
  cases kept with
  | some starts => exact ⟨some starts, hkept, by rw [hkept starts rfl]; rfl⟩
  | none =>
    cases hstarts : startsOf source.text with
    | error fault => exact ⟨none, hkept, by simp [keptStarts, hstarts]; rfl⟩
    | ok starts =>
      refine ⟨some starts, ?_, by simp [keptStarts, hstarts]; rfl⟩
      intro other hother
      cases hother
      exact hstarts

/-- A node is at the same place, with line starts kept or not. -/
theorem computes_keptLocationOf (source : Source) (node : Value) :
    source.Computes (source.keptLocationOf node) (source.locationOf node) := by
  refine (Computes.lift _).bind fun own => ?_
  cases own with
  | some location => exact .ok location
  | none =>
    refine (Computes.lift _).bind fun s => ?_
    cases s with
    | none => exact .ok _
    | some s =>
      dsimp only
      split
      · exact .ok _
      · refine (computes_keptStarts source).bind fun starts => ?_
        cases s.start.number? with
        | none => exact .fails _
        | some offset => exact .ok _

end TreeLint.Source

/-! ## Single reports -/

namespace TreeLint.Rule

open TreeLint.Json TreeLint.Syntax TreeLint.Source

/-- What the report of a node under an id gives when it is the only one.  It reads the rule and the text
besides, and nothing else. -/
def verdict (rule : Rule) (text : Value) (call : Value × Value) : Except Fault Diagnostic := do
  match ← call.2.key with
  | .str id => Context.report ⟨rule, .empty, ⟨text⟩, .null⟩ call.1 id
  | other => .error (.noMessage rule.name other.display)

/-- What stands for a node under an id is reported. -/
theorem report_of_standsFor {context : Context} {node : Value} {id : String} {d : Diagnostic}
    (h : StandsFor context.source context.rule id node d) : context.report node id = .ok d := by
  obtain ⟨hrule, ⟨hid, hmessage⟩, hlocation, hspan⟩ := h
  rw [hrule] at hmessage
  rw [Context.report, hmessage]
  simp only [hlocation, hspan, ok_bind, pure_eq_ok, ← hrule, ← hid]

/-- A single report gives a diagnostic exactly when its id is that of a message and the place of the node can
be told, and then the one that stands for the node. -/
theorem verdict_eq_ok_iff {rule : Rule} {text : Value} {call : Value × Value} {d : Diagnostic} :
    verdict rule text call = .ok d ↔ ∃ id, call.2 = .str id ∧ StandsFor ⟨text⟩ rule id call.1 d := by
  obtain ⟨node, key⟩ := call
  have hreport : ∀ id, verdict rule text (node, .str id) =
      Context.report ⟨rule, .empty, ⟨text⟩, .null⟩ node id := fun _ => rfl
  constructor
  · intro h
    cases key with
    | str id =>
      rw [hreport] at h
      exact ⟨id, rfl, standsFor_of_report h⟩
    | _ => simp [verdict, Value.key, Value.isKey] at h
  · rintro ⟨id, hid, h⟩
    obtain rfl : key = .str id := hid
    rw [hreport]
    exact report_of_standsFor h

/-- A report ends as a single one, with line starts kept or not. -/
theorem computes_keptReport (context : Context) (call : Value × Value) :
    context.source.Computes (context.keptReport call.1 call.2)
      (verdict context.rule context.source.text call) := by
  refine (Computes.lift _).bind fun key => ?_
  cases key with
  | str id =>
    dsimp only
    rw [Context.report]
    split
    · next hmessage =>
      rw [hmessage]
      exact .fails _
    · next message hmessage =>
      rw [hmessage]
      refine (computes_keptLocationOf context.source call.1).bind fun location => ?_
      refine (Computes.lift _).bind fun span => ?_
      exact .ok _
  | _ => exact .fails _

/-! ## Sequences -/

section Sequences

variable {context : Context}

/-- A report adds its diagnostic, if it gives one, and nothing else is seen of it. -/
theorem exists_reportTo (desk : Desk) (h : context.source.Faithful desk.starts) (call : Value × Value) :
    ∃ starts, context.source.Faithful starts ∧ context.reportTo desk call.1 call.2 =
      ((verdict context.rule context.source.text call).map fun _ => (),
        ⟨desk.sink ++ (verdict context.rule context.source.text call).toOption.toList, starts⟩) := by
  obtain ⟨starts, hstarts, heq⟩ := computes_keptReport context call desk.starts h
  refine ⟨starts, hstarts, ?_⟩
  rw [Context.reportTo, heq]
  cases verdict context.rule context.source.text call with
  | error fault => simp [Except.map, Except.toOption]
  | ok d => rfl

/-- The first report of a sequence leaves its desk to the others. -/
theorem reportAll_cons {desk next : Desk} {call : Value × Value} {outcome : Except Fault Unit}
    (h : context.reportTo desk call.1 call.2 = (outcome, next)) (rest : List (Value × Value)) :
    context.reportAll desk (call :: rest) =
      ((outcome, next.sink.length) :: (context.reportAll next rest).1,
        (context.reportAll next rest).2) := by
  rw [Context.reportAll, h]

/-- After a sequence of reports the line starts that are kept are those of the text, and the diagnostics are
those of the reports that gave one.  Each report has ended as if it were the only one. -/
theorem exists_reportAll (desk : Desk) (h : context.source.Faithful desk.starts)
    (calls : List (Value × Value)) :
    ∃ starts, context.source.Faithful starts ∧
      (context.reportAll desk calls).2 = ⟨desk.sink ++ calls.filterMap fun call =>
        (verdict context.rule context.source.text call).toOption, starts⟩ ∧
      (context.reportAll desk calls).1.map Prod.fst = calls.map fun call =>
        (verdict context.rule context.source.text call).map fun _ => () := by
  induction calls generalizing desk with
  | nil => exact ⟨desk.starts, h, by simp [Context.reportAll], rfl⟩
  | cons call rest ih =>
    obtain ⟨next, hnext, hstep⟩ := exists_reportTo desk h call
    obtain ⟨last, hlast, hdesk, houtcomes⟩ := ih ⟨_, next⟩ hnext
    rw [reportAll_cons hstep]
    refine ⟨last, hlast, ?_, congrArg (_ :: ·) houtcomes⟩
    rw [hdesk, List.filterMap_cons, List.append_assoc]
    cases verdict context.rule context.source.text call with
    | error fault => rfl
    | ok d => rfl

/-- Whether line starts are kept makes no difference to a sequence of reports. -/
theorem reportAll_congr {a b : Option (List Nat)} (ha : context.source.Faithful a)
    (hb : context.source.Faithful b) (sink : List Diagnostic) (calls : List (Value × Value)) :
    (context.reportAll ⟨sink, a⟩ calls).1 = (context.reportAll ⟨sink, b⟩ calls).1 ∧
      (context.reportAll ⟨sink, a⟩ calls).2.sink = (context.reportAll ⟨sink, b⟩ calls).2.sink := by
  induction calls generalizing sink a b with
  | nil => exact ⟨rfl, rfl⟩
  | cons call rest ih =>
    obtain ⟨_, hnext, hstep⟩ := exists_reportTo ⟨sink, a⟩ ha call
    obtain ⟨_, hother, hsame⟩ := exists_reportTo ⟨sink, b⟩ hb call
    rw [reportAll_cons hstep, reportAll_cons hsame]
    obtain ⟨houtcomes, hsink⟩ := ih hnext hother _
    exact ⟨congrArg (_ :: ·) houtcomes, hsink⟩

/-- A report that fails leaves the diagnostics and all later reports as they would be without it. -/
theorem reportTo_of_error {desk : Desk} (h : context.source.Faithful desk.starts) (call : Value × Value)
    {fault : Fault} (hfault : (context.reportTo desk call.1 call.2).1 = .error fault)
    (later : List (Value × Value)) :
    (context.reportTo desk call.1 call.2).2.sink = desk.sink ∧
      (context.reportAll (context.reportTo desk call.1 call.2).2 later).1 =
        (context.reportAll desk later).1 ∧
      (context.reportAll (context.reportTo desk call.1 call.2).2 later).2.sink =
        (context.reportAll desk later).2.sink := by
  obtain ⟨starts, hstarts, hstep⟩ := exists_reportTo desk h call
  rw [hstep] at hfault ⊢
  cases hverdict : verdict context.rule context.source.text call with
  | ok d =>
    rw [hverdict] at hfault
    cases hfault
  | error cause =>
    have hsink : desk.sink ++ (Except.error cause : Except Fault Diagnostic).toOption.toList = desk.sink :=
      List.append_nil desk.sink
    rw [hsink]
    exact ⟨rfl, reportAll_congr hstarts h desk.sink later⟩

end Sequences

/-- Reports are atomic.  After any sequence of them, the diagnostics are those of the reports that gave one, in
order, and each report has ended as if it were the only one: by its node, its id, the rule and the text.  A
report that gives a diagnostic gives the one that stands for its node.  From there on, a report that fails adds
no diagnostic, and every later report ends as it would without it.  All the while the line starts that are kept
are those of the text. -/
theorem reports_atomic (context : Context) (calls : List (Value × Value)) :
    let alone := verdict context.rule context.source.text
    let reached := context.reportAll .clear calls
    reached.2.sink = calls.filterMap (fun call => (alone call).toOption) ∧
    reached.1.map Prod.fst = calls.map (fun call => (alone call).map fun _ => ()) ∧
    (∀ call d, alone call = .ok d ↔
      ∃ id, call.2 = .str id ∧ StandsFor context.source context.rule id call.1 d) ∧
    (∀ node id fault, (context.reportTo reached.2 node id).1 = .error fault →
      ∀ later, (context.reportTo reached.2 node id).2.sink = reached.2.sink ∧
        (context.reportAll (context.reportTo reached.2 node id).2 later).1 =
          (context.reportAll reached.2 later).1 ∧
        (context.reportAll (context.reportTo reached.2 node id).2 later).2.sink =
          (context.reportAll reached.2 later).2.sink) ∧
    ∀ starts, reached.2.starts = some starts → startsOf context.source.text = .ok starts := by
  intro alone reached
  have hclear : context.source.Faithful Desk.clear.starts := fun _ h => by cases h
  obtain ⟨starts, hstarts, hdesk, houtcomes⟩ := exists_reportAll .clear hclear calls
  have hreached : context.source.Faithful reached.2.starts := by
    rw [show reached.2 = _ from hdesk]
    exact hstarts
  refine ⟨congrArg Desk.sink hdesk, houtcomes, fun _ _ => verdict_eq_ok_iff, ?_, hreached⟩
  intro node id fault hfault later
  exact reportTo_of_error hreached (node, id) hfault later

/-- A span that starts nowhere fails the first report, after the line starts of the text were kept.  Of four later
reports one has an id of no message, one has no node, one has a list for its id, and the last one finds its node
on the second line, as it would without the first. -/
theorem reports_atomic_kept :
    let context : Context := ⟨.noSwitch, .empty, ⟨.str "a\nb"⟩, .null⟩
    let stray : Value := .obj [("range", .arr [.null, .int 3])]
    let node : Value := .obj [("start", .int 2), ("end", .int 3)]
    let id : Value := .str "noSwitch"
    let failed := context.reportTo .clear stray id
    let later := [(node, .str "noElse"), (.null, id), (node, .arr []), (node, id)]
    failed.1 = .error .unsuited ∧ failed.2.starts = some [0, 2] ∧
      (context.reportAll failed.2 later).1 = (context.reportAll .clear later).1 ∧
      (context.reportAll failed.2 later).2.sink.map (fun d => d.location.line) = [.int 2] := by
  intro context stray node id failed later
  have hfailed : failed.1 = .error .unsuited := rfl
  obtain ⟨_, _, _, hlater, _⟩ := reports_atomic context []
  obtain ⟨_, houtcomes, hsame⟩ := hlater stray id .unsuited hfailed later
  obtain ⟨hsink, _⟩ := reports_atomic context later
  refine ⟨hfailed, rfl, houtcomes, ?_⟩
  rw [show (context.reportAll failed.2 later).2.sink = _ from hsame.trans hsink]
  rfl

end TreeLint.Rule
