/-
  The reports of a run.

  A rule that looks at a node finds nodes to report, each under one of its messages, and a diagnostic is
  written for each of them.  All that a run reports is found visit by visit in the order of the walk, and at
  each visit rule by rule.
-/
import TreeLint.Proofs.Independence
import TreeLint.Proofs.Traversal

set_option autoImplicit false

namespace TreeLint.Rule

open TreeLint.Json TreeLint.Syntax TreeLint.Source TreeLint.Usage

/-! ## What a rule finds -/

/-- A node that a rule reports, and the message. -/
structure Finding where
  /-- The node. -/
  node : Value
  /-- The id of the message. -/
  id : String

/-- The nodes that are marked, in order. -/
def marked (id : String) (nodes : List Value) (marks : List Bool) : List Finding :=
  (nodes.zip marks).filterMap fun pair => if pair.2 then some ⟨pair.1, id⟩ else none

/-- The conditional around a function's body. -/
def guardFindings (function : Value) : Except Fault (List Finding) := do
  return (← wholeBodyConditional function).toList.map (⟨·, "requireGuardClause"⟩)

/-- The function itself, if it is exported and only passes its parameters on. -/
def wrapperFindings (root : Value) (visit : Visit) : Except Fault (List Finding) := do
  if ← isExportedDirectly root visit.path visit.node then
    if ← forwardsParameters visit.node then return [⟨visit.node, "noEmptyWrapper"⟩] else return []
  else return []

/-- The other branch of a conditional. -/
def elseFindings (conditional : Value) : Except Fault (List Finding) := do
  let branch ← conditional.get "alternate"
  if branch.isNull then return [] else return [⟨branch, "noElse"⟩]

/-- The block of a catch clause, if it swallows the error. -/
def catchFindings (source : Source) (clause : Value) : Except Fault (List Finding) := do
  let block ← clause.get "body"
  if block.isNull then return []
  else if (← block.get "type").isText "BlockStatement" then
    if ← swallows source block then return [⟨block, "noSwallowedCatch"⟩] else return []
  else return []

/-- Which of the statements export a bare name by default. -/
def bareNameMarks (declared : Gathered) : Resolver → List Value → Except Fault (List Bool)
  | _, [] => .ok []
  | resolver, statement :: rest => do
    let answer ← exportsBareName declared statement resolver
    return answer.1 :: (← bareNameMarks declared answer.2 rest)

/-- The statements of a program that export badly, pass by pass. -/
def exportFindings (context : Context) (program : Value) : Except Fault (List Finding) := do
  let body := (← program.get "body").orEmpty
  if !body.truthy then return []
  else
    let statements ← body.elements
    let lists ← statements.mapM listsLocalValues
    let aliases ← statements.mapM exportsAlias
    let declared ← declarations program
    let resolver := Resolver.ofStrategy (Strategy.choose program context.bindings)
    let names ← bareNameMarks declared resolver statements
    let reported := (lists.zip (aliases.zip names)).map fun marks =>
      marks.1 || marks.2.1 || marks.2.2
    let count := (← beforeLastOther statements.reverse).getD 0
    let candidates := (statements.zip reported).take count
    let early ← candidates.mapM fun pair =>
      isMisplaced (allowsReExport context.options) pair.1 pair.2
    return marked "noExportSpecifiers" statements lists ++ marked "noExportAlias" statements aliases ++
      marked "noDefaultExportAlias" statements names ++
      marked "exportsLast" (candidates.map Prod.fst) early

/-- What a rule finds at a visit: nothing, if it does not look at nodes of that kind. -/
def findings (root : Value) (visit : Visit) (context : Context) : Except Fault (List Finding) :=
  if context.rule.looksAt visit.node then
    match context.rule with
    | .requireGuardClauses => guardFindings visit.node
    | .noSwallowedCatch => catchFindings context.source visit.node
    | .exportCodeLast => exportFindings context visit.node
    | .noEmptyWrappers => wrapperFindings root visit
    | .noSwitch => .ok [⟨visit.node, "noSwitch"⟩]
    | .noElse => elseFindings visit.node
  else .ok []

/-! ## Diagnostics are written for what is found -/

/-- The diagnostics are those for the findings, one for each and in order. -/
def Written (context : Context) (found : List Finding) (ds : List Diagnostic) : Prop :=
  List.Forall₂ (fun f d => context.report f.node f.id = .ok d) found ds

section Writing

variable {context : Context} {ds : List Diagnostic}

theorem written_singleton {node : Value} {id : String}
    (h : (do return [← context.report node id]) = Except.ok ds) : Written context [⟨node, id⟩] ds := by
  obtain ⟨d, hd, heq⟩ := bind_eq_ok_iff.mp h
  cases heq
  exact .cons hd .nil

theorem marked_cons (id : String) (node : Value) (nodes : List Value) (mark : Bool)
    (marks : List Bool) :
    marked id (node :: nodes) (mark :: marks) =
      (if mark then [⟨node, id⟩] else []) ++ marked id nodes marks := by
  cases mark <;> rfl

theorem exists_guardFindings {function : Value} (h : checkGuardClauses context function = .ok ds) :
    ∃ found, guardFindings function = .ok found ∧ Written context found ds := by
  obtain ⟨conditional, hconditional, h⟩ := bind_eq_ok_iff.mp h
  rw [guardFindings, hconditional, ok_bind]
  cases conditional with
  | none =>
    cases h
    exact ⟨[], rfl, .nil⟩
  | some conditional => exact ⟨_, rfl, written_singleton h⟩

theorem exists_wrapperFindings {root : Value} {visit : Visit}
    (h : checkEmptyWrapper context root visit = .ok ds) :
    ∃ found, wrapperFindings root visit = .ok found ∧ Written context found ds := by
  obtain ⟨exported, hexported, h⟩ := bind_eq_ok_iff.mp h
  rw [wrapperFindings, hexported, ok_bind]
  cases exported with
  | false =>
    cases h
    exact ⟨[], rfl, .nil⟩
  | true =>
    obtain ⟨forwards, hforwards, h⟩ := bind_eq_ok_iff.mp h
    rw [if_pos rfl, hforwards, ok_bind]
    cases forwards with
    | false =>
      cases h
      exact ⟨[], rfl, .nil⟩
    | true => exact ⟨_, rfl, written_singleton h⟩

theorem exists_elseFindings {conditional : Value} (h : checkElse context conditional = .ok ds) :
    ∃ found, elseFindings conditional = .ok found ∧ Written context found ds := by
  obtain ⟨branch, hbranch, h⟩ := bind_eq_ok_iff.mp h
  rw [elseFindings, hbranch, ok_bind]
  split at h
  · next hnull =>
    cases h
    exact ⟨[], if_pos hnull, .nil⟩
  · next hbranch => exact ⟨_, if_neg hbranch, written_singleton h⟩

theorem exists_catchFindings {clause : Value} (h : checkCatch context clause = .ok ds) :
    ∃ found, catchFindings context.source clause = .ok found ∧ Written context found ds := by
  obtain ⟨block, hblock, h⟩ := bind_eq_ok_iff.mp h
  rw [catchFindings, hblock, ok_bind]
  split at h
  · cases h
    exact ⟨[], rfl, .nil⟩
  · next hpresent =>
    obtain ⟨kind, hkind, h⟩ := bind_eq_ok_iff.mp h
    rw [if_neg fun hnull => hpresent (isNull_iff.mp hnull), hkind, ok_bind]
    split at h
    · next hisBlock =>
      obtain ⟨swallowed, hswallowed, h⟩ := bind_eq_ok_iff.mp h
      rw [if_pos hisBlock, hswallowed, ok_bind]
      split at h
      · next hyes => exact ⟨_, if_pos hyes, written_singleton h⟩
      · next hno =>
        cases h
        exact ⟨[], if_neg hno, .nil⟩
    · next hother =>
      cases h
      exact ⟨[], if_neg hother, .nil⟩

/-! The passes of the rule about exports leave gaps for the statements that they do not report. -/

theorem exists_marks_reportWhere {id : String} {test : Value → Except Fault Bool} {nodes : List Value}
    {row : List (Option Diagnostic)} (h : context.reportWhere id test nodes = .ok row) :
    ∃ marks, nodes.mapM test = .ok marks ∧ row.map Option.isSome = marks ∧
      Written context (marked id nodes marks) (row.filterMap fun d => d) := by
  rw [Context.reportWhere, mapM_eq_ok_iff] at h
  induction h with
  | nil => exact ⟨[], rfl, rfl, .nil⟩
  | @cons node entry _ _ hhere _ ih =>
    obtain ⟨marks, hmarks, hgaps, hwritten⟩ := ih
    obtain ⟨mark, hmark, hhere⟩ := bind_eq_ok_iff.mp hhere
    refine ⟨mark :: marks, ?_, ?_, ?_⟩
    · rw [List.mapM_cons, hmark, ok_bind, hmarks]
      rfl
    · cases mark with
      | false =>
        cases hhere
        exact congrArg (false :: ·) hgaps
      | true =>
        obtain ⟨d, _, heq⟩ := bind_eq_ok_iff.mp hhere
        cases heq
        exact congrArg (true :: ·) hgaps
    · rw [marked_cons]
      cases mark with
      | false =>
        cases hhere
        exact hwritten
      | true =>
        obtain ⟨d, hd, heq⟩ := bind_eq_ok_iff.mp hhere
        cases heq
        exact .cons hd hwritten

theorem exists_marks_reportBareNames {declared : Gathered} {resolver : Resolver} {nodes : List Value}
    {row : List (Option Diagnostic)}
    (h : reportBareNames context declared resolver nodes = .ok row) :
    ∃ marks, bareNameMarks declared resolver nodes = .ok marks ∧ row.map Option.isSome = marks ∧
      Written context (marked "noDefaultExportAlias" nodes marks) (row.filterMap fun d => d) := by
  induction nodes generalizing resolver row with
  | nil =>
    cases h
    exact ⟨[], rfl, rfl, .nil⟩
  | cons node rest ih =>
    obtain ⟨⟨mark, after⟩, hmark, h⟩ := bind_eq_ok_iff.mp h
    rw [bareNameMarks, hmark, ok_bind]
    cases mark with
    | false =>
      obtain ⟨later, hlater, heq⟩ := bind_eq_ok_iff.mp h
      cases heq
      obtain ⟨marks, hmarks, hgaps, hwritten⟩ := ih hlater
      exact ⟨false :: marks, by rw [hmarks]; rfl, congrArg (false :: ·) hgaps, hwritten⟩
    | true =>
      obtain ⟨d, hd, h⟩ := bind_eq_ok_iff.mp h
      obtain ⟨later, hlater, heq⟩ := bind_eq_ok_iff.mp h
      cases heq
      obtain ⟨marks, hmarks, hgaps, hwritten⟩ := ih hlater
      exact ⟨true :: marks, by rw [hmarks]; rfl, congrArg (true :: ·) hgaps, .cons hd hwritten⟩

theorem exists_marks_reportMisplaced {allowReExport : Bool} {pairs : List (Value × Bool)}
    (h : reportMisplaced context allowReExport pairs = .ok ds) :
    ∃ marks, pairs.mapM (fun pair => isMisplaced allowReExport pair.1 pair.2) = .ok marks ∧
      Written context (marked "exportsLast" (pairs.map Prod.fst) marks) ds := by
  induction pairs generalizing ds with
  | nil =>
    cases h
    exact ⟨[], rfl, .nil⟩
  | cons pair rest ih =>
    obtain ⟨statement, reported⟩ := pair
    obtain ⟨mark, hmark, h⟩ := bind_eq_ok_iff.mp h
    simp only [List.mapM_cons, hmark, ok_bind, List.map_cons]
    cases mark with
    | false =>
      obtain ⟨marks, hmarks, hwritten⟩ := ih h
      exact ⟨false :: marks, by rw [hmarks]; rfl, hwritten⟩
    | true =>
      obtain ⟨d, hd, h⟩ := bind_eq_ok_iff.mp h
      obtain ⟨later, hlater, heq⟩ := bind_eq_ok_iff.mp h
      cases heq
      obtain ⟨marks, hmarks, hwritten⟩ := ih hlater
      exact ⟨true :: marks, by rw [hmarks]; rfl, .cons hd hwritten⟩

theorem exists_exportFindings {program : Value} (h : checkExports context program = .ok ds) :
    ∃ found, exportFindings context program = .ok found ∧ Written context found ds := by
  obtain ⟨body, hbody, h⟩ := bind_eq_ok_iff.mp h
  rw [exportFindings, hbody, ok_bind]
  dsimp only at h ⊢
  split at h
  · next hempty =>
    cases h
    exact ⟨[], if_pos hempty, .nil⟩
  · next hpresent =>
    obtain ⟨statements, hstatements, h⟩ := bind_eq_ok_iff.mp h
    obtain ⟨lists, hlists, h⟩ := bind_eq_ok_iff.mp h
    obtain ⟨aliases, haliases, h⟩ := bind_eq_ok_iff.mp h
    obtain ⟨declared, hdeclared, h⟩ := bind_eq_ok_iff.mp h
    obtain ⟨names, hnames, h⟩ := bind_eq_ok_iff.mp h
    obtain ⟨count, hcount, h⟩ := bind_eq_ok_iff.mp h
    obtain ⟨listMarks, hlistMarks, rfl, hlistWritten⟩ := exists_marks_reportWhere hlists
    obtain ⟨aliasMarks, haliasMarks, rfl, haliasWritten⟩ := exists_marks_reportWhere haliases
    obtain ⟨nameMarks, hnameMarks, rfl, hnameWritten⟩ := exists_marks_reportBareNames hnames
    have hfirst := List.rel_append (List.rel_append hlistWritten haliasWritten) hnameWritten
    rw [if_neg hpresent]
    simp only [hstatements, hlistMarks, haliasMarks, hdeclared, hnameMarks, hcount, ok_bind,
      List.zip_map, List.map_map]
    cases count with
    | none =>
      cases h
      exact ⟨_, rfl, List.rel_append hfirst .nil⟩
    | some count =>
      obtain ⟨early, hearly, heq⟩ := bind_eq_ok_iff.mp h
      cases heq
      obtain ⟨earlyMarks, hearlyMarks, hearlyWritten⟩ := exists_marks_reportMisplaced hearly
      exact ⟨_, bind_eq_ok_iff.mpr ⟨earlyMarks, hearlyMarks, rfl⟩, List.rel_append hfirst hearlyWritten⟩

/-- Whatever a rule reports at a visit is written for what it finds there. -/
theorem exists_findings {root : Value} {visit : Visit} (h : reportsAt root visit context = .ok ds) :
    ∃ found, findings root visit context = .ok found ∧ Written context found ds := by
  unfold reportsAt at h
  unfold findings
  split at h
  · next hlooks =>
    rw [if_pos hlooks]
    unfold check at h
    cases hrule : context.rule with
    | requireGuardClauses => exact exists_guardFindings (by rwa [hrule] at h)
    | noSwallowedCatch => exact exists_catchFindings (by rwa [hrule] at h)
    | exportCodeLast => exact exists_exportFindings (by rwa [hrule] at h)
    | noEmptyWrappers => exact exists_wrapperFindings (by rwa [hrule] at h)
    | noSwitch =>
      rw [hrule] at h
      exact ⟨_, rfl, written_singleton h⟩
    | noElse => exact exists_elseFindings (by rwa [hrule] at h)
  · next hlooks =>
    cases h
    exact ⟨[], if_neg hlooks, .nil⟩

end Writing

/-! ## Runs -/

/-- A report of a run: what was found, at which visit, and what the rule sees. -/
structure Report where
  /-- What the rule sees. -/
  context : Context
  /-- The visit. -/
  visit : Visit
  /-- What was found. -/
  finding : Finding

/-- The diagnostic that is written for a report. -/
def Report.write (r : Report) : Except Fault Diagnostic :=
  r.context.report r.finding.node r.finding.id

/-- The visits in their order, and at each of them the rules in theirs. -/
def turns (contexts : List Context) (visits : List Visit) : List (Visit × Context) :=
  visits.flatMap fun visit => contexts.map fun context => (visit, context)

/-- What a rule reports at a visit. -/
def turnReports (root : Value) (turn : Visit × Context) : Except Fault (List Report) := do
  return (← findings root turn.1 turn.2).map fun f => ⟨turn.2, turn.1, f⟩

/-- The rules report turn by turn. -/
theorem exists_turns {contexts : List Context} {root : Value} {visits : List Visit}
    {ds : List Diagnostic} (h : checkVisits contexts root visits = .ok ds) :
    ∃ rows : List (List Diagnostic), ds = rows.flatten ∧
      List.Forall₂ (fun turn row => reportsAt root turn.1 turn.2 = .ok row) (turns contexts visits)
        rows := by
  obtain ⟨found, hfound, heq⟩ := bind_eq_ok_iff.mp h
  cases heq
  clear h
  rw [mapM_eq_ok_iff] at hfound
  induction hfound with
  | nil => exact ⟨[], rfl, .nil⟩
  | @cons visit here rest later hhere _ ih =>
    obtain ⟨rows, hrows, hturns⟩ := ih
    rw [checkNode_eq] at hhere
    obtain ⟨parts, hparts, heq⟩ := bind_eq_ok_iff.mp hhere
    cases heq
    refine ⟨parts ++ rows, by rw [List.flatten_cons, List.flatten_append, hrows], ?_⟩
    rw [turns, List.flatMap_cons]
    exact List.rel_append (List.forall₂_map_left_iff.mpr (mapM_eq_ok_iff.mp hparts)) hturns

/-- What is reported in turns is written in turns. -/
theorem exists_turnReports {root : Value} {row : List (Visit × Context)}
    {rows : List (List Diagnostic)}
    (h : List.Forall₂ (fun turn ds => reportsAt root turn.1 turn.2 = .ok ds) row rows) :
    ∃ made, row.mapM (turnReports root) = .ok made ∧
      List.Forall₂ (fun r d => Report.write r = .ok d) made.flatten rows.flatten := by
  induction h with
  | nil => exact ⟨[], rfl, .nil⟩
  | @cons turn ds _ _ hhere _ ih =>
    obtain ⟨made, hmade, hwritten⟩ := ih
    obtain ⟨found, hfound, hhere⟩ := exists_findings hhere
    have hrow : List.Forall₂ (fun r d => Report.write r = .ok d)
        (found.map fun f => ⟨turn.2, turn.1, f⟩) ds := List.forall₂_map_left_iff.mpr hhere
    refine ⟨(found.map fun f => ⟨turn.2, turn.1, f⟩) :: made, ?_, List.rel_append hrow hwritten⟩
    rw [List.mapM_cons, turnReports, hfound, ok_bind, hmade]
    rfl

end TreeLint.Rule

namespace TreeLint.Engine

open TreeLint.Json TreeLint.Syntax TreeLint.Rule

/-- All reports of a run, in the order in which they are made: that of the nodes of the tree, and at each
node that of the rules. -/
def reports (engine : Engine) (program text bindings : Value) : Except Fault (List Report) := do
  let options ← copyOptions engine.options
  let made ← (turns (engine.contexts options text bindings) (preorder [] program)).mapM
    (turnReports program)
  return made.flatten

/-- A run gives the diagnostics that are written for its reports, put in order. -/
theorem exists_reports {engine : Engine} {program text bindings : Value} {ds : List Diagnostic}
    (h : engine.run program text bindings = .ok ds) :
    ∃ made written, engine.reports program text bindings = .ok made ∧
      List.Forall₂ (fun r d => Report.write r = .ok d) made written ∧ inOrder written = ds := by
  obtain ⟨options, visits, found, hoptions, hvisits, hfound, rfl⟩ := run_eq_ok_iff.mp h
  rw [walk_eq] at hvisits
  obtain ⟨_, _, heq⟩ := bind_eq_ok_iff.mp hvisits
  cases heq
  obtain ⟨rows, rfl, hturns⟩ := exists_turns hfound
  obtain ⟨made, hmade, hwritten⟩ := exists_turnReports hturns
  exact ⟨made.flatten, rows.flatten, by rw [reports, hoptions, ok_bind, hmade]; rfl, hwritten, rfl⟩

/-- A report of a run is made in one of its turns. -/
theorem turn_of_mem_reports {engine : Engine} {program text bindings : Value} {made : List Report}
    (h : engine.reports program text bindings = .ok made) {r : Report} (hr : r ∈ made) :
    r.context.rule ∈ engine.rules ∧ r.context.source = ⟨text⟩ ∧ r.visit ∈ preorder [] program ∧
      ∃ found, findings program r.visit r.context = .ok found ∧ r.finding ∈ found := by
  obtain ⟨options, _, h⟩ := bind_eq_ok_iff.mp h
  obtain ⟨rows, hrows, heq⟩ := bind_eq_ok_iff.mp h
  cases heq
  obtain ⟨row, hrow, hr⟩ := List.mem_flatten.mp hr
  obtain ⟨⟨visit, context⟩, hturn, hreports⟩ := exists_of_mem_mapM hrows hrow
  obtain ⟨found, hfound, heq⟩ := bind_eq_ok_iff.mp hreports
  cases heq
  obtain ⟨f, hf, rfl⟩ := List.mem_map.mp hr
  obtain ⟨_, hvisit, hturn⟩ := List.mem_flatMap.mp hturn
  obtain ⟨_, hcontext, heq⟩ := List.mem_map.mp hturn
  cases heq
  obtain ⟨rule, hrule, rfl⟩ := List.mem_map.mp hcontext
  exact ⟨hrule, rfl, hvisit, found, hfound, hf⟩

/-- What is found in a turn of a run is reported. -/
theorem mem_reports_of_visit {engine : Engine} {program text bindings : Value} {made : List Report}
    (h : engine.reports program text bindings = .ok made) {rule : Rule} (hrule : rule ∈ engine.rules)
    {visit : Visit} (hvisit : visit ∈ preorder [] program) :
    ∃ context found, context.rule = rule ∧ findings program visit context = .ok found ∧
      ∀ f ∈ found, ⟨context, visit, f⟩ ∈ made := by
  obtain ⟨options, _, h⟩ := bind_eq_ok_iff.mp h
  obtain ⟨rows, hrows, heq⟩ := bind_eq_ok_iff.mp h
  cases heq
  let context : Context := ⟨rule, optionsFor options rule, ⟨text⟩, bindings⟩
  have hturn : (visit, context) ∈
      turns (engine.contexts options text bindings) (preorder [] program) :=
    List.mem_flatMap.mpr ⟨visit, hvisit, List.mem_map_of_mem (List.mem_map_of_mem hrule)⟩
  obtain ⟨row, hrow, hreports⟩ := exists_mem_of_mapM hrows hturn
  obtain ⟨found, hfound, heq⟩ := bind_eq_ok_iff.mp hreports
  cases heq
  exact ⟨context, found, rfl, hfound, fun f hf =>
    List.mem_flatten.mpr ⟨_, hrow, List.mem_map_of_mem hf⟩⟩

end TreeLint.Engine

/-! ## Rules that report one node for each visit -/

namespace TreeLint.Rule

open TreeLint.Json TreeLint.Syntax

/-- The diagnostic is one of the rule, under the message with the id, for the node: it has the place and the
span of the node. -/
structure StandsFor (source : Source) (rule : Rule) (id : String) (node : Value) (d : Diagnostic) :
    Prop where
  /-- The rule. -/
  reporter : d.rule = rule
  /-- The message. -/
  message : d.messageId = id ∧ d.rule.info.messages.lookup id = some d.message
  /-- The place. -/
  location : source.locationOf node = .ok d.location
  /-- The span. -/
  span : Syntax.span node = .ok d.span

theorem standsFor_of_report {context : Context} {node : Value} {id : String} {d : Diagnostic}
    (h : context.report node id = .ok d) : StandsFor context.source context.rule id node d := by
  unfold Context.report at h
  split at h
  · cases h
  · next message hmessage =>
    obtain ⟨location, hlocation, h⟩ := bind_eq_ok_iff.mp h
    obtain ⟨span, hspan, h⟩ := bind_eq_ok_iff.mp h
    cases h
    exact ⟨rfl, ⟨rfl, hmessage⟩, hlocation, hspan⟩

/-- The diagnostics are exact: each node of the tree that has a target is reported once, at its target, and
nothing else is reported. -/
structure ExactFor (root text : Value) (rule : Rule) (id : String)
    (Target : Path → Value → Value → Prop) (reported : List (Visit × Value)) (ds : List Diagnostic) :
    Prop where
  /-- What is reported are the nodes with their targets. -/
  verdicts : ∀ path node target, (⟨path, node⟩, target) ∈ reported ↔
    Reaches root path node ∧ Target path node target
  /-- No node is reported twice. -/
  once : (reported.map fun r => r.1.path).Nodup
  /-- Each diagnostic stands for one of the targets. -/
  diagnostics : ∃ written, ds.Perm written ∧
    List.Forall₂ (fun r d => StandsFor ⟨text⟩ rule id r.2 d) reported written

/-- The rule finds the targets under the message with the id, and nothing else. -/
def Finds (root : Value) (rule : Rule) (id : String) (Target : Path → Value → Value → Prop) : Prop :=
  ∀ visit ∈ preorder [] root, ∀ context found, context.rule = rule →
    findings root visit context = .ok found →
    (found = [] ∧ ∀ target, ¬ Target visit.path visit.node target) ∨
      ∃ target, found = [⟨target, id⟩] ∧ ∀ other, Target visit.path visit.node other ↔ other = target

/-- A rule with one finding at most for each visit reports no visit twice. -/
theorem sublist_of_turnReports {root : Value} {context : Context} {visits : List Visit}
    {made : List (List Report)}
    (h : (turns [context] visits).mapM (turnReports root) = .ok made)
    (hone : ∀ visit ∈ visits, ∀ found, findings root visit context = .ok found → found.length ≤ 1) :
    (made.flatten.map Report.visit).Sublist visits := by
  induction visits generalizing made with
  | nil =>
    cases h
    exact .slnil
  | cons visit rest ih =>
    rw [turns, List.flatMap_cons, List.map_singleton, List.singleton_append, List.mapM_cons] at h
    obtain ⟨row, hrow, h⟩ := bind_eq_ok_iff.mp h
    obtain ⟨later, hlater, heq⟩ := bind_eq_ok_iff.mp h
    cases heq
    have hrest := ih hlater fun v hv => hone v (List.mem_cons_of_mem _ hv)
    obtain ⟨found, hfound, heq⟩ := bind_eq_ok_iff.mp hrow
    cases heq
    have hlength := hone visit List.mem_cons_self found hfound
    match found with
    | [] => exact hrest.cons visit
    | [f] => exact hrest.cons_cons visit
    | _ :: _ :: _ =>
      simp at hlength

/-- The run of a rule that finds the targets reports exactly the targets. -/
theorem exactFor_of_finds {root text bindings options : Value} {rule : Rule} {id : String}
    {Target : Path → Value → Value → Prop} {debug : Bool} {ds : List Diagnostic}
    (hfinds : Finds root rule id Target)
    (hrun : Engine.run ⟨[rule], options, debug⟩ root text bindings = .ok ds) :
    ∃ reported, ExactFor root text rule id Target reported ds := by
  obtain ⟨made, written, hmade, hwritten, rfl⟩ := Engine.exists_reports hrun
  refine ⟨made.map fun r => (r.visit, r.finding.node), ?_, ?_, written, inOrder_perm written, ?_⟩
  · intro path node target
    rw [← mem_preorder_iff_reaches]
    constructor
    · intro hmem
      obtain ⟨r, hr, heq⟩ := List.mem_map.mp hmem
      obtain ⟨hvisit, rfl⟩ := Prod.mk.inj heq
      obtain ⟨hrule, _, hreached, found, hfound, hf⟩ := Engine.turn_of_mem_reports hmade hr
      rw [hvisit] at hreached hfound
      rcases hfinds _ hreached _ _ (List.mem_singleton.mp hrule) hfound with
        ⟨rfl, _⟩ | ⟨t, rfl, htarget⟩
      · cases hf
      · rw [List.mem_singleton.mp hf]
        exact ⟨hreached, (htarget t).mpr rfl⟩
    · rintro ⟨hreached, htarget⟩
      obtain ⟨context, found, hrule, hfound, hmem⟩ :=
        Engine.mem_reports_of_visit hmade List.mem_cons_self hreached
      rcases hfinds _ hreached _ _ hrule hfound with ⟨_, hnone⟩ | ⟨t, rfl, hall⟩
      · exact absurd htarget (hnone target)
      · obtain rfl := (hall target).mp htarget
        exact List.mem_map.mpr ⟨_, hmem _ List.mem_cons_self, rfl⟩
  · obtain ⟨options, _, h⟩ := bind_eq_ok_iff.mp hmade
    obtain ⟨rows, hrows, heq⟩ := bind_eq_ok_iff.mp h
    cases heq
    have hone : ∀ visit ∈ preorder [] root, ∀ context found, context.rule = rule →
        findings root visit context = .ok found → found.length ≤ 1 := by
      intro visit hvisit context found hrule hfound
      rcases hfinds visit hvisit context found hrule hfound with ⟨rfl, _⟩ | ⟨t, rfl, _⟩
      · exact Nat.zero_le 1
      · exact Nat.le_refl 1
    have hsublist := sublist_of_turnReports hrows fun visit hvisit found hfound =>
      hone visit hvisit _ found rfl hfound
    have hpaths := hsublist.map Visit.path
    rw [List.map_map] at hpaths ⊢
    exact hpaths.nodup (nodup_paths_preorder [] root)
  · rw [List.forall₂_map_left_iff]
    refine ((List.forall₂_and_left _ _).mpr ⟨fun r => Engine.turn_of_mem_reports hmade, hwritten⟩).imp ?_
    rintro r d ⟨⟨hrule, hsource, hvisit, found, hfound, hf⟩, hd⟩
    have hrule := List.mem_singleton.mp hrule
    have hid : r.finding.id = id := by
      rcases hfinds r.visit hvisit r.context found hrule hfound with ⟨rfl, _⟩ | ⟨t, rfl, _⟩
      · cases hf
      · rw [List.mem_singleton.mp hf]
    have hstands := standsFor_of_report hd
    rwa [hrule, hsource, hid] at hstands

end TreeLint.Rule
