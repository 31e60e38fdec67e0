/-
  Rules do not disturb each other.

  At each node the chosen rules report one after the other, and all reports go into one row that is put in
  order at the end.  What stands in that row for one rule is what the rule would have reported alone,
  whichever other rules are chosen and in whatever order; and a run of several rules ends with a fault
  only if one of them would have done so alone.
-/
import TreeLint.Proofs.Order
import TreeLint.Proofs.Outcome

set_option autoImplicit false

namespace TreeLint.Rule

open TreeLint.Json TreeLint.Syntax

/-! ## Who reports -/

/-- The rule alone has reported. -/
def ReportedBy (rule : Rule) (ds : List Diagnostic) : Prop :=
  ∀ d ∈ ds, d.rule = rule

theorem rule_of_report {context : Context} {node : Value} {id : String} {d : Diagnostic}
    (h : context.report node id = .ok d) : d.rule = context.rule := by
  unfold Context.report at h
  split at h
  · cases h
  · obtain ⟨location, _, h⟩ := bind_eq_ok_iff.mp h
    obtain ⟨span, _, h⟩ := bind_eq_ok_iff.mp h
    cases h
    rfl

/-- A single report is one of the rule. -/
theorem reportedBy_report {context : Context} {node : Value} {id : String} {ds : List Diagnostic}
    (h : (do return [← context.report node id]) = Except.ok ds) : ReportedBy context.rule ds := by
  obtain ⟨d, hd, h⟩ := bind_eq_ok_iff.mp h
  cases h
  intro e he
  obtain rfl := List.mem_singleton.mp he
  exact rule_of_report hd

theorem reportedBy_nil (rule : Rule) : ReportedBy rule [] := by
  intro d hd
  cases hd

theorem ReportedBy.append {rule : Rule} {ds es : List Diagnostic} (hds : ReportedBy rule ds)
    (hes : ReportedBy rule es) : ReportedBy rule (ds ++ es) := by
  intro d hd
  rcases List.mem_append.mp hd with hd | hd
  · exact hds d hd
  · exact hes d hd

theorem ReportedBy.cons {rule : Rule} {d : Diagnostic} {ds : List Diagnostic} (hd : d.rule = rule)
    (hds : ReportedBy rule ds) : ReportedBy rule (d :: ds) := by
  intro e he
  rcases List.mem_cons.mp he with rfl | he
  · exact hd
  · exact hds e he

section Checks

variable {context : Context} {ds : List Diagnostic}

theorem reportedBy_checkGuardClauses {function : Value}
    (h : checkGuardClauses context function = .ok ds) : ReportedBy context.rule ds := by
  obtain ⟨conditional, _, h⟩ := bind_eq_ok_iff.mp h
  cases conditional with
  | none =>
    cases h
    exact reportedBy_nil _
  | some conditional => exact reportedBy_report h

theorem reportedBy_checkEmptyWrapper {root : Value} {visit : Visit}
    (h : checkEmptyWrapper context root visit = .ok ds) : ReportedBy context.rule ds := by
  obtain ⟨exported, _, h⟩ := bind_eq_ok_iff.mp h
  cases exported with
  | false =>
    cases h
    exact reportedBy_nil _
  | true =>
    obtain ⟨forwards, _, h⟩ := bind_eq_ok_iff.mp h
    cases forwards with
    | false =>
      cases h
      exact reportedBy_nil _
    | true => exact reportedBy_report h

theorem reportedBy_checkElse {conditional : Value} (h : checkElse context conditional = .ok ds) :
    ReportedBy context.rule ds := by
  obtain ⟨branch, _, h⟩ := bind_eq_ok_iff.mp h
  split at h
  · cases h
    exact reportedBy_nil _
  · exact reportedBy_report h

theorem reportedBy_checkCatch {clause : Value} (h : checkCatch context clause = .ok ds) :
    ReportedBy context.rule ds := by
  obtain ⟨block, _, h⟩ := bind_eq_ok_iff.mp h
  split at h
  · cases h
    exact reportedBy_nil _
  · obtain ⟨kind, _, h⟩ := bind_eq_ok_iff.mp h
    split at h
    · obtain ⟨swallowed, _, h⟩ := bind_eq_ok_iff.mp h
      split at h
      · exact reportedBy_report h
      · cases h
        exact reportedBy_nil _
    · cases h
      exact reportedBy_nil _

/-! The rule about exports reports in four passes, the first three of them into rows with gaps. -/

theorem reportedBy_reportWhere {id : String} {test : Value → Except Fault Bool}
    {statements : List Value} {row : List (Option Diagnostic)}
    (h : context.reportWhere id test statements = .ok row) :
    ReportedBy context.rule (row.filterMap fun d => d) := by
  intro d hd
  obtain ⟨_, hmem, rfl⟩ := List.mem_filterMap.mp hd
  obtain ⟨statement, _, hhere⟩ := exists_of_mem_mapM h hmem
  obtain ⟨passes, _, hhere⟩ := bind_eq_ok_iff.mp hhere
  cases passes with
  | false => cases hhere
  | true =>
    obtain ⟨d', hd', heq⟩ := bind_eq_ok_iff.mp hhere
    cases heq
    exact rule_of_report hd'

theorem reportedBy_reportBareNames {declared : Usage.Gathered} {resolver : Usage.Resolver}
    {statements : List Value} {row : List (Option Diagnostic)}
    (h : reportBareNames context declared resolver statements = .ok row) :
    ReportedBy context.rule (row.filterMap fun d => d) := by
  induction statements generalizing resolver row with
  | nil =>
    cases h
    exact reportedBy_nil _
  | cons statement rest ih =>
    obtain ⟨⟨bare, after⟩, _, h⟩ := bind_eq_ok_iff.mp h
    cases bare with
    | false =>
      obtain ⟨later, hlater, heq⟩ := bind_eq_ok_iff.mp h
      cases heq
      have hrest := ih hlater
      exact hrest
    | true =>
      obtain ⟨d, hd, h⟩ := bind_eq_ok_iff.mp h
      obtain ⟨later, hlater, heq⟩ := bind_eq_ok_iff.mp h
      cases heq
      exact (ih hlater).cons (rule_of_report hd)

theorem reportedBy_reportMisplaced {allowReExport : Bool} {pairs : List (Value × Bool)}
    (h : reportMisplaced context allowReExport pairs = .ok ds) : ReportedBy context.rule ds := by
  induction pairs generalizing ds with
  | nil =>
    cases h
    exact reportedBy_nil _
  | cons pair rest ih =>
    obtain ⟨statement, reported⟩ := pair
    obtain ⟨misplaced, _, h⟩ := bind_eq_ok_iff.mp h
    cases misplaced with
    | false => exact ih h
    | true =>
      obtain ⟨d, hd, h⟩ := bind_eq_ok_iff.mp h
      obtain ⟨later, hlater, heq⟩ := bind_eq_ok_iff.mp h
      cases heq
      exact (ih hlater).cons (rule_of_report hd)

theorem reportedBy_checkExports {program : Value} (h : checkExports context program = .ok ds) :
    ReportedBy context.rule ds := by
  obtain ⟨body, _, h⟩ := bind_eq_ok_iff.mp h
  dsimp only at h
  split at h
  · cases h
    exact reportedBy_nil _
  · obtain ⟨statements, _, h⟩ := bind_eq_ok_iff.mp h
    obtain ⟨lists, hlists, h⟩ := bind_eq_ok_iff.mp h
    obtain ⟨aliases, haliases, h⟩ := bind_eq_ok_iff.mp h
    obtain ⟨declared, _, h⟩ := bind_eq_ok_iff.mp h
    obtain ⟨names, hnames, h⟩ := bind_eq_ok_iff.mp h
    have hfirst := ((reportedBy_reportWhere hlists).append (reportedBy_reportWhere haliases)).append
      (reportedBy_reportBareNames hnames)
    obtain ⟨count, _, h⟩ := bind_eq_ok_iff.mp h
    cases count with
    | none =>
      cases h
      exact hfirst.append (reportedBy_nil _)
    | some count =>
      obtain ⟨early, hearly, heq⟩ := bind_eq_ok_iff.mp h
      cases heq
      exact hfirst.append (reportedBy_reportMisplaced hearly)

/-- Whatever a check reports, it reports for its own rule. -/
theorem reportedBy_check {root : Value} {visit : Visit} (h : check context root visit = .ok ds) :
    ReportedBy context.rule ds := by
  unfold check at h
  split at h
  · exact reportedBy_checkGuardClauses h
  · exact reportedBy_checkCatch h
  · exact reportedBy_checkExports h
  · exact reportedBy_checkEmptyWrapper h
  · exact reportedBy_report h
  · exact reportedBy_checkElse h

end Checks

/-! ## One node -/

/-- What a rule reports at a node: nothing, if it does not look at nodes of that kind. -/
def reportsAt (root : Value) (visit : Visit) (context : Context) : Except Fault (List Diagnostic) :=
  if context.rule.looksAt visit.node then check context root visit else .ok []

theorem reportedBy_reportsAt {root : Value} {visit : Visit} {context : Context}
    {ds : List Diagnostic} (h : reportsAt root visit context = .ok ds) :
    ReportedBy context.rule ds := by
  unfold reportsAt at h
  split at h
  · exact reportedBy_check h
  · cases h
    exact reportedBy_nil _

/-- The reports at a node are those of all rules, one rule after the other. -/
theorem checkNode_eq (contexts : List Context) (root : Value) (visit : Visit) :
    checkNode contexts root visit =
      contexts.mapM (reportsAt root visit) >>= fun found => .ok found.flatten := by
  have hcons : ∀ (context : Context) (rest : List Context),
      checkNode (context :: rest) root visit = (do
        let here ← reportsAt root visit context
        return here ++ (← checkNode rest root visit)) := by
    intro context rest
    by_cases hlooks : context.rule.looksAt visit.node = true
    · simp only [checkNode, reportsAt, List.filter_cons, hlooks, if_true, List.mapM_cons, bind_assoc,
        pure_eq_ok]
      rfl
    · rw [reportsAt, if_neg hlooks, checkNode, List.filter_cons, if_neg hlooks]
      exact (bind_pure _).symm
  induction contexts with
  | nil => rfl
  | cons context rest ih =>
    rw [hcons, ih, List.mapM_cons]
    simp only [bind_assoc, pure_eq_ok, ok_bind, List.flatten_cons]

/-- Of the reports at a node, those of one rule are the reports of that rule. -/
theorem reportsAt_eq_filter {root : Value} {visit : Visit} {contexts : List Context}
    {found : List (List Diagnostic)}
    (hfound : List.Forall₂ (fun context ds => reportsAt root visit context = .ok ds) contexts found)
    (hdistinct : (contexts.map Context.rule).Nodup) {context : Context} (hmem : context ∈ contexts) :
    reportsAt root visit context =
      .ok (found.flatten.filter fun d => decide (d.rule = context.rule)) := by
  -- Only the rule itself reports under its name: the others leave nothing in the filtered row.
  have hothers : ∀ {contexts : List Context} {found : List (List Diagnostic)},
      List.Forall₂ (fun context ds => reportsAt root visit context = .ok ds) contexts found →
      context.rule ∉ contexts.map Context.rule →
      (found.flatten.filter fun d => decide (d.rule = context.rule)) = [] := by
    intro contexts found hfound hnot
    induction hfound with
    | nil => rfl
    | @cons other ds rest later hhere _ ih =>
      rw [List.map_cons, List.mem_cons, not_or] at hnot
      rw [List.flatten_cons, List.filter_append, ih hnot.2, List.append_nil, List.filter_eq_nil_iff]
      intro d hd heq
      rw [reportedBy_reportsAt hhere d hd] at heq
      exact hnot.1 (of_decide_eq_true heq).symm
  induction hfound with
  | nil => cases hmem
  | @cons other ds rest later hhere hrest ih =>
    obtain ⟨hnot, hdistinct⟩ := List.nodup_cons.mp hdistinct
    rw [List.flatten_cons, List.filter_append]
    rcases List.mem_cons.mp hmem with rfl | hmem
    · have hall : (ds.filter fun d => decide (d.rule = context.rule)) = ds :=
        List.filter_eq_self.mpr fun d hd => decide_eq_true (reportedBy_reportsAt hhere d hd)
      rw [hothers hrest hnot, List.append_nil, hall]
      exact hhere
    · have hnone : (ds.filter fun d => decide (d.rule = context.rule)) = [] := by
        rw [List.filter_eq_nil_iff]
        intro d hd heq
        rw [reportedBy_reportsAt hhere d hd] at heq
        exact hnot (of_decide_eq_true heq ▸ List.mem_map_of_mem hmem)
      rw [hnone, List.nil_append]
      exact ih hdistinct hmem

theorem checkNode_singleton (context : Context) (root : Value) (visit : Visit) :
    checkNode [context] root visit = reportsAt root visit context := by
  rw [checkNode_eq, List.mapM_cons, List.mapM_nil]
  cases reportsAt root visit context with
  | error fault => rfl
  | ok ds => simp

/-- The rules get through a node together when each of them gets through it alone. -/
theorem exists_checkNode_iff {contexts : List Context} {root : Value} {visit : Visit} :
    (∃ ds, checkNode contexts root visit = .ok ds) ↔
      ∀ context ∈ contexts, ∃ ds, checkNode [context] root visit = .ok ds := by
  simp only [checkNode_singleton]
  rw [← exists_mapM_eq_ok_iff, checkNode_eq]
  constructor
  · rintro ⟨ds, h⟩
    obtain ⟨found, hfound, _⟩ := bind_eq_ok_iff.mp h
    exact ⟨found, hfound⟩
  · rintro ⟨found, hfound⟩
    exact ⟨found.flatten, bind_eq_ok_iff.mpr ⟨found, hfound, rfl⟩⟩

/-- Of what the rules report at a node together, each has reported its own part alone. -/
theorem checkNode_eq_filter {contexts : List Context} {root : Value} {visit : Visit}
    {ds : List Diagnostic} (h : checkNode contexts root visit = .ok ds)
    (hdistinct : (contexts.map Context.rule).Nodup) {context : Context} (hmem : context ∈ contexts) :
    checkNode [context] root visit = .ok (ds.filter fun d => decide (d.rule = context.rule)) := by
  rw [checkNode_eq] at h
  obtain ⟨found, hfound, heq⟩ := bind_eq_ok_iff.mp h
  cases heq
  rw [checkNode_singleton]
  exact reportsAt_eq_filter (mapM_eq_ok_iff.mp hfound) hdistinct hmem

/-! ## All nodes -/

/-- The rules get through all nodes when they get through each of them. -/
theorem exists_checkVisits_iff_nodes {contexts : List Context} {root : Value} {visits : List Visit} :
    (∃ ds, checkVisits contexts root visits = .ok ds) ↔
      ∀ visit ∈ visits, ∃ ds, checkNode contexts root visit = .ok ds := by
  rw [← exists_mapM_eq_ok_iff, checkVisits]
  constructor
  · rintro ⟨ds, h⟩
    obtain ⟨found, hfound, _⟩ := bind_eq_ok_iff.mp h
    exact ⟨found, hfound⟩
  · rintro ⟨found, hfound⟩
    exact ⟨found.flatten, bind_eq_ok_iff.mpr ⟨found, hfound, rfl⟩⟩

theorem exists_checkVisits_iff {contexts : List Context} {root : Value} {visits : List Visit} :
    (∃ ds, checkVisits contexts root visits = .ok ds) ↔
      ∀ context ∈ contexts, ∃ ds, checkVisits [context] root visits = .ok ds := by
  simp only [exists_checkVisits_iff_nodes]
  constructor
  · intro h context hcontext visit hvisit
    exact exists_checkNode_iff.mp (h visit hvisit) context hcontext
  · intro h visit hvisit
    exact exists_checkNode_iff.mpr fun context hcontext => h context hcontext visit hvisit

theorem checkVisits_eq_filter {contexts : List Context} {root : Value} {visits : List Visit}
    {ds : List Diagnostic} (h : checkVisits contexts root visits = .ok ds)
    (hdistinct : (contexts.map Context.rule).Nodup) {context : Context} (hmem : context ∈ contexts) :
    checkVisits [context] root visits = .ok (ds.filter fun d => decide (d.rule = context.rule)) := by
  obtain ⟨found, hfound, heq⟩ := bind_eq_ok_iff.mp h
  cases heq
  have hnodes : List.Forall₂ (fun visit ds => checkNode [context] root visit = .ok ds) visits
      (found.map (List.filter fun d => decide (d.rule = context.rule))) :=
    List.forall₂_map_right_iff.mpr ((mapM_eq_ok_iff.mp hfound).imp fun _ _ hnode =>
      checkNode_eq_filter hnode hdistinct hmem)
  rw [checkVisits, mapM_eq_ok_iff.mpr hnodes, List.filter_flatten]
  rfl

/-- Together the rules report nothing for any other rule. -/
theorem rule_mem_of_checkVisits {contexts : List Context} {root : Value} {visits : List Visit}
    {ds : List Diagnostic} (h : checkVisits contexts root visits = .ok ds) {d : Diagnostic}
    (hd : d ∈ ds) : d.rule ∈ contexts.map Context.rule := by
  obtain ⟨found, hfound, heq⟩ := bind_eq_ok_iff.mp h
  cases heq
  obtain ⟨here, hhere, hd⟩ := List.mem_flatten.mp hd
  obtain ⟨visit, _, hnode⟩ := exists_of_mem_mapM hfound hhere
  rw [checkNode_eq] at hnode
  obtain ⟨parts, hparts, heq⟩ := bind_eq_ok_iff.mp hnode
  cases heq
  obtain ⟨part, hpart, hd⟩ := List.mem_flatten.mp hd
  obtain ⟨context, hcontext, hreports⟩ := exists_of_mem_mapM hparts hpart
  rw [reportedBy_reportsAt hreports d hd]
  exact List.mem_map_of_mem hcontext

/-! ## Whole runs -/

/-- A run gives diagnostics when each of its steps gives a result. -/
theorem run_eq_ok_iff {engine : Engine} {program text bindings : Value} {ds : List Diagnostic} :
    engine.run program text bindings = .ok ds ↔
      ∃ options visits found, copyOptions engine.options = .ok options ∧ walk program = .ok visits ∧
        checkVisits (engine.contexts options text bindings) program visits = .ok found ∧
        inOrder found = ds := by
  simp only [Engine.run, bind_eq_ok_iff, pure_eq_ok, Except.ok.injEq]
  constructor
  · rintro ⟨options, hoptions, visits, hvisits, found, hfound, heq⟩
    exact ⟨options, visits, found, hoptions, hvisits, hfound, heq⟩
  · rintro ⟨options, visits, found, hoptions, hvisits, hfound, heq⟩
    exact ⟨options, hoptions, visits, hvisits, found, hfound, heq⟩

/-- What the rules of an engine see is their own, rule by rule. -/
theorem map_rule_contexts (rules : List Rule) (given : Value) (debug : Bool) (options : RuleOptions)
    (text bindings : Value) :
    (Engine.contexts ⟨rules, given, debug⟩ options text bindings).map Context.rule = rules := by
  simp [Engine.contexts, Function.comp_def]

/-- Only rules of the engine report in a run. -/
theorem rule_mem_of_run {engine : Engine} {program text bindings : Value} {ds : List Diagnostic}
    (h : engine.run program text bindings = .ok ds) {d : Diagnostic} (hd : d ∈ ds) :
    d.rule ∈ engine.rules := by
  obtain ⟨options, _, found, _, _, hfound, rfl⟩ := run_eq_ok_iff.mp h
  have hmem := rule_mem_of_checkVisits hfound ((inOrder_perm found).mem_iff.mp hd)
  rwa [map_rule_contexts engine.rules engine.options engine.debug options text bindings] at hmem

/-- Rules are independent of each other and of their order.  A run of several rules, each of another
name, gives diagnostics when the run of each of them does, and then what stands in it for one rule is
what the run of that rule alone gives, in the same order; it holds nothing else. -/
theorem run_rules_independent (rules : List Rule) (hrules : rules ≠ [])
    (hnames : (rules.map Rule.name).Nodup) (options : Value) (debug : Bool)
    (program text bindings : Value) :
    ((∃ ds, Engine.run ⟨rules, options, debug⟩ program text bindings = .ok ds) ↔
      ∀ rule ∈ rules, ∃ ds, Engine.run ⟨[rule], options, debug⟩ program text bindings = .ok ds) ∧
    ∀ ds, Engine.run ⟨rules, options, debug⟩ program text bindings = .ok ds →
      (∀ rule ∈ rules, Engine.run ⟨[rule], options, debug⟩ program text bindings =
        .ok (ds.filter fun d => decide (d.rule = rule))) ∧
      ∀ d ∈ ds, d.rule ∈ rules := by
  have hdistinct : rules.Nodup :=
    List.Pairwise.of_map Rule.name (fun _ _ hne heq => hne (congrArg Rule.name heq)) hnames
  have hdiagnostics : ∀ ds, Engine.run ⟨rules, options, debug⟩ program text bindings = .ok ds →
      ∀ rule ∈ rules, Engine.run ⟨[rule], options, debug⟩ program text bindings =
        .ok (ds.filter fun d => decide (d.rule = rule)) := by
    intro ds hrun rule hrule
    obtain ⟨copied, visits, found, hcopied, hvisits, hfound, rfl⟩ := run_eq_ok_iff.mp hrun
    have halone := checkVisits_eq_filter hfound
      (by rw [map_rule_contexts]; exact hdistinct) (List.mem_map_of_mem hrule)
    refine run_eq_ok_iff.mpr ⟨copied, visits, _, hcopied, hvisits, halone, ?_⟩
    exact (filter_inOrder _ found).symm
  refine ⟨⟨?_, ?_⟩, fun ds hrun => ⟨hdiagnostics ds hrun, fun d hd => ?_⟩⟩
  · rintro ⟨ds, hrun⟩ rule hrule
    exact ⟨_, hdiagnostics ds hrun rule hrule⟩
  · intro halone
    -- Some rule is there to say that the options can be copied and the tree can be walked.
    obtain ⟨first, hfirst⟩ := List.exists_mem_of_ne_nil rules hrules
    obtain ⟨ds, hrun⟩ := halone first hfirst
    obtain ⟨copied, visits, _, hcopied, hvisits, _, _⟩ := run_eq_ok_iff.mp hrun
    have hall : ∀ context ∈ Engine.contexts ⟨rules, options, debug⟩ copied text bindings,
        ∃ found, checkVisits [context] program visits = .ok found := by
      intro context hcontext
      obtain ⟨rule, hrule, rfl⟩ := List.mem_map.mp hcontext
      obtain ⟨ds, hrun⟩ := halone rule hrule
      obtain ⟨copied', visits', found, hcopied', hvisits', hfound, _⟩ := run_eq_ok_iff.mp hrun
      cases hcopied.symm.trans hcopied'
      cases hvisits.symm.trans hvisits'
      exact ⟨found, hfound⟩
    obtain ⟨found, hfound⟩ := exists_checkVisits_iff.mpr hall
    exact ⟨_, run_eq_ok_iff.mpr ⟨copied, visits, found, hcopied, hvisits, hfound, rfl⟩⟩
  · obtain ⟨copied, visits, found, _, _, hfound, rfl⟩ := run_eq_ok_iff.mp hrun
    have hmem := rule_mem_of_checkVisits hfound ((inOrder_perm found).mem_iff.mp hd)
    rwa [map_rule_contexts] at hmem

/-- The program `if (a) ; else ; switch (a) { }`: two rules look at both statements, and each finds its
own. -/
theorem run_rules_independent_branches :
    let other : Value := .obj [("type", .str "EmptyStatement"), ("start", .int 14), ("end", .int 15)]
    let conditional : Value := .obj [("type", .str "IfStatement"), ("alternate", other)]
    let choice : Value :=
      .obj [("type", .str "SwitchStatement"), ("start", .int 16), ("end", .int 29)]
    let program : Value := .obj [("type", .str "Program"), ("body", .arr [conditional, choice])]
    let run (rules : List Rule) := Engine.run ⟨rules, .null, false⟩ program .null .null
    ([Rule.noSwitch, Rule.noElse].map Rule.name).Nodup ∧
      ∃ ds, run [.noSwitch, .noElse] = .ok ds ∧ ds.length = 2 ∧
        run [.noElse] = .ok (ds.filter fun d => decide (d.rule = .noElse)) ∧
        run [.noSwitch] = .ok (ds.filter fun d => decide (d.rule = .noSwitch)) := by
  intro other conditional choice program run
  have hnames : ([Rule.noSwitch, Rule.noElse].map Rule.name).Nodup := by decide
  have hcount : (checkVisits (Engine.contexts ⟨[.noSwitch, .noElse], .null, false⟩ [] .null .null) program
      (traverse [⟨[], program⟩])).toOption.map List.length = some 2 := by decide +kernel
  obtain ⟨found, hfound, hlength⟩ := Option.map_eq_some_iff.mp hcount
  have hrun : run [.noSwitch, .noElse] = .ok (inOrder found) :=
    run_eq_ok_iff.mpr ⟨[], _, found, rfl, rfl, toOption_eq_some_iff.mp hfound, rfl⟩
  obtain ⟨_, hparts⟩ := run_rules_independent [.noSwitch, .noElse] (by simp) hnames .null false program
    .null .null
  obtain ⟨hparts, _⟩ := hparts _ hrun
  refine ⟨hnames, _, hrun, ?_, hparts .noElse (by decide), hparts .noSwitch (by decide)⟩
  rw [(inOrder_perm found).length_eq, hlength]

end TreeLint.Rule
