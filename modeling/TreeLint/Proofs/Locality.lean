/-
  Reports statement by statement.

  All rules but the one about exports look at one node at a time, and at what is below it.  Even whether an
  export declares a function is told by the node above it, and a statement of the program is declared by
  none.  What these rules report for a program is therefore what they report for the first of its
  statements and for the others, put in order together.
-/
import TreeLint.Proofs.Traversal

set_option autoImplicit false

namespace TreeLint.Rule

open TreeLint.Json TreeLint.Syntax TreeLint.Usage

/-! ## Programs by their statements -/

/-- The program with the given statements and the other fields of a frame. -/
def programOf (frame : Fields) (statements : List Value) : Value :=
  .obj (Fields.put frame "body" (.arr statements))

/-- The diagnostics for a tree, once it is linked. -/
def lint (engine : Engine) (tree text bindings : Value) : Except Fault (List Diagnostic) := do
  engine.run (← linkTree tree) text bindings

/-- The nodes among the statements, each with its place, counted from a number on. -/
def statementEdges (first : Nat) (statements : List Value) : List Edge :=
  (statements.zipIdx first).filterMap fun item =>
    if isNode item.1 then some ⟨⟨"body", some item.2⟩, item.1⟩ else none

theorem statementEdges_append (first : Nat) (xs ys : List Value) :
    statementEdges first (xs ++ ys) =
      statementEdges first xs ++ statementEdges (first + xs.length) ys := by
  rw [statementEdges, List.zipIdx_append, List.filterMap_append]
  rfl

/-- Where the statements are counted from makes no difference to them. -/
theorem forall₂_statementEdges (first second : Nat) (statements : List Value) :
    List.Forall₂ (fun e d => e.child = d.child) (statementEdges first statements)
      (statementEdges second statements) := by
  unfold statementEdges
  induction statements generalizing first second with
  | nil => exact .nil
  | cons s rest ih =>
    rw [List.zipIdx_cons, List.zipIdx_cons, List.filterMap_cons, List.filterMap_cons]
    dsimp only
    cases isNode s with
    | true => exact .cons rfl (ih _ _)
    | false => exact ih _ _

section Programs

variable {frame : Fields} (hframe : Fields.get frame "type" = .str "Program") (statements : List Value)

include hframe

theorem isKind_programOf : isKind (programOf frame statements) "Program" = true := by
  rw [programOf, isKind_obj_iff, Fields.get_put_of_ne _ _ (by decide)]
  exact hframe

theorem edges_programOf : edges (programOf frame statements) = statementEdges 0 statements := by
  have hkind := isKind_obj_iff.mp (isKind_programOf hframe statements)
  rw [programOf, edges, childFields_of_kind hkind (by decide : listedFields? "Program" = some ["body"]),
    List.flatMap_singleton, Fields.get_put_self]
  rfl

/-- The program, linked. -/
theorem isKind_linked : isKind (rebuild hang [] (programOf frame statements)) "Program" = true := by
  rw [isKind_congr (kind?_rebuild touchesParent_hang [] _)]
  exact isKind_programOf hframe statements

/-- The nodes of a linked program below the root: those of each statement in turn. -/
theorem preorder_linked :
    preorder [] (rebuild hang [] (programOf frame statements)) =
      ⟨[], rebuild hang [] (programOf frame statements)⟩ ::
        (statementEdges 0 statements).flatMap fun e =>
          preorder [e.step] (rebuild hang [e.step] e.child) := by
  rw [preorder_eq, edges_rebuild touchesParent_hang []
    (isNode_of_isKind (isKind_programOf hframe statements)), edges_programOf hframe, List.flatMap_map]

/-- A statement is not declared by an export, and what is below it looks the same in every program that
has the statement. -/
theorem likeVisits_statement {others : List Value} {e d : Edge} (he : e ∈ edges (programOf frame statements))
    (hd : d ∈ edges (programOf frame others)) (hsame : e.child = d.child) :
    List.Forall₂ (LikeVisits (SameSettled fun _ => .null)
        (rebuild hang [] (programOf frame statements)) (rebuild hang [] (programOf frame others)))
      (preorder [e.step] (rebuild hang [e.step] e.child))
      (preorder [d.step] (rebuild hang [d.step] d.child)) := by
  have hchild : ∀ {zs : List Value} {c : Edge}, c ∈ edges (programOf frame zs) →
      ⟨c.step, rebuild hang [c.step] c.child⟩ ∈ edges (rebuild hang [] (programOf frame zs)) := by
    intro zs c hc
    rw [edges_rebuild touchesParent_hang [] (isNode_of_isKind (isKind_programOf hframe zs))]
    exact List.mem_map_of_mem hc
  have hexported : ∀ {zs : List Value} {c : Edge}, c ∈ edges (programOf frame zs) →
      isExportedDirectly (rebuild hang [] (programOf frame zs)) [c.step]
        (rebuild hang [c.step] c.child) = .ok false := by
    intro zs c hc
    have hno : ∀ kind, kind ≠ "Program" →
        isKind (rebuild hang [] (programOf frame zs)) kind = false := by
      intro kind hkind
      rw [← Bool.not_eq_true]
      exact fun hyes => hkind (isKind_unique hyes (isKind_linked hframe zs))
    have hparent := require_parent_link [c.step] (isNode_of_mem_edges hc)
    rw [isExportedDirectly_child rfl c.step hparent, hno _ (by decide), hno _ (by decide)]
    rfl
  apply likeVisits_linked
  · refine .of_settled ?_
    rw [hsame]
    exact settled_null_link _ _ _
  · exact at?_child rfl (hchild he)
  · exact at?_child rfl (hchild hd)
  · exact isLinked_link _ (isNode_of_mem_edges he)
  · exact isLinked_link _ (isNode_of_mem_edges hd)
  · rw [hexported he, hexported hd]

end Programs

/-! ## Reports for rows of nodes -/

/-- What is reported for a row of nodes is reported for its two parts. -/
theorem checkVisits_append (contexts : List Context) (root : Value) (visits others : List Visit) :
    checkVisits contexts root (visits ++ others) = (do
      let found ← checkVisits contexts root visits
      let more ← checkVisits contexts root others
      return found ++ more) := by
  simp only [checkVisits, List.mapM_append, bind_assoc, pure_eq_ok, ok_bind, List.flatten_append]

/-- Nothing but the rule about exports looks at the program itself. -/
theorem checkVisits_program {contexts : List Context}
    (hrules : ∀ context ∈ contexts, context.rule ≠ .exportCodeLast) (root : Value) {visit : Visit}
    (hkind : isKind visit.node "Program" = true) (rest : List Visit) :
    checkVisits contexts root (visit :: rest) = checkVisits contexts root rest := by
  have hkinds : ∀ rule : Rule, rule ≠ .exportCodeLast → "Program" ∉ rule.info.kinds := by
    intro rule hrule
    cases rule with
    | exportCodeLast => exact absurd rfl hrule
    | _ => decide
  have hnone : (contexts.filter fun context => context.rule.looksAt visit.node) = [] := by
    rw [List.filter_eq_nil_iff]
    intro context hcontext hlooks
    obtain ⟨kind, hmem, hvisit⟩ := List.any_eq_true.mp hlooks
    refine hkinds context.rule (hrules context hcontext) ?_
    rwa [isKind_unique hkind hvisit]
  have hhere : checkNode contexts root visit = .ok [] := by
    rw [checkNode, hnone]
    rfl
  simp only [checkVisits, List.mapM_cons, hhere, ok_bind, bind_assoc, pure_eq_ok, List.flatten_cons,
    List.nil_append]

/-! ## Reports for rows of statements -/

/-- The contexts of an engine are those of its rules. -/
theorem rule_ne_of_mem_contexts {rules : List Rule} {rule : Rule} (h : rule ∉ rules) (options : Value)
    (debug : Bool) (copied : RuleOptions) (text bindings : Value) :
    ∀ context ∈ Engine.contexts ⟨rules, options, debug⟩ copied text bindings, context.rule ≠ rule := by
  intro context hcontext heq
  have hmem := List.mem_map_of_mem (f := Context.rule) hcontext
  rw [map_rule_contexts, heq] at hmem
  exact h hmem

section Statements

variable {frame : Fields} (hframe : Fields.get frame "type" = .str "Program")

/-- What the rules report below the root of a linked program. -/
def statementReports (contexts : List Context) (frame : Fields) (statements : List Value) :
    Except Fault (List Diagnostic) :=
  checkVisits contexts (rebuild hang [] (programOf frame statements))
    ((statementEdges 0 statements).flatMap fun e => preorder [e.step] (rebuild hang [e.step] e.child))

include hframe

/-- Without the rule about exports, a program is reported statement by statement. -/
theorem lint_programOf {rules : List Rule} (hrules : .exportCodeLast ∉ rules) (options : Value)
    (debug : Bool) (text bindings : Value) (statements : List Value) :
    lint ⟨rules, options, debug⟩ (programOf frame statements) text bindings = (do
      let copied ← copyOptions options
      let found ← statementReports (Engine.contexts ⟨rules, options, debug⟩ copied text bindings) frame
        statements
      return inOrder found) := by
  have hnode : isNode (programOf frame statements) = true :=
    isNode_of_isKind (isKind_programOf hframe statements)
  have hlinked : isNode (rebuild hang [] (programOf frame statements)) = true := by
    rw [isNode_rebuild touchesParent_hang, hnode]
  rw [lint, linkTree_eq hnode, ok_bind, Engine.run]
  congr 1
  funext copied
  rw [walk_of_isNode hlinked, ok_bind, preorder_linked hframe,
    checkVisits_program (rule_ne_of_mem_contexts hrules _ _ _ _ _) _ (isKind_linked hframe statements)]
  rfl

/-- The reports for two rows of statements, one after the other, are like those for both. -/
theorem statementReports_append {contexts : List Context}
    (hcontexts : ∀ context ∈ contexts, context.rule ≠ .exportCodeLast) (xs ys : List Value) :
    Both (List.Forall₂ (LikeDiagnostics (SameSettled fun _ => .null)))
      (do
        let found ← statementReports contexts frame xs
        let more ← statementReports contexts frame ys
        return found ++ more)
      (statementReports contexts frame (xs ++ ys)) := by
  have hsame : List.Forall₂ (LikeContexts (SameSettled fun _ => .null) (SameSettled fun _ => .null))
      contexts contexts := by
    rw [List.forall₂_same]
    intro context hcontext
    exact ⟨context.bindings, rfl, fun hrule => absurd hrule (hcontexts context hcontext)⟩
  -- A part of the statements, wherever it stands among all of them.
  have hpart : ∀ (zs : List Value) (first : Nat),
      (∀ d ∈ statementEdges first zs, d ∈ edges (programOf frame (xs ++ ys))) →
      Both (List.Forall₂ (LikeDiagnostics (SameSettled fun _ => .null)))
        (statementReports contexts frame zs)
        (checkVisits contexts (rebuild hang [] (programOf frame (xs ++ ys)))
          ((statementEdges first zs).flatMap fun e =>
            preorder [e.step] (rebuild hang [e.step] e.child))) := by
    intro zs first hmem
    apply (ruleLikeness_settled fun _ => .null).checkVisits_like hsame
    apply forall₂_flatMap (forall₂_mem_right (forall₂_statementEdges 0 first zs))
    rintro e he d ⟨hd, hchild⟩
    rw [← edges_programOf hframe zs] at he
    exact likeVisits_statement hframe zs he (hmem d hd) hchild
  have hedges : edges (programOf frame (xs ++ ys)) =
      statementEdges 0 xs ++ statementEdges (0 + xs.length) ys := by
    rw [edges_programOf hframe, statementEdges_append]
  have hfirst := hpart xs 0 fun d hd => hedges ▸ List.mem_append_left _ hd
  have hsecond := hpart ys (0 + xs.length) fun d hd => hedges ▸ List.mem_append_right _ hd
  have hall : statementReports contexts frame (xs ++ ys) = checkVisits contexts
      (rebuild hang [] (programOf frame (xs ++ ys))) (((statementEdges 0 xs).flatMap fun e =>
        preorder [e.step] (rebuild hang [e.step] e.child)) ++
          (statementEdges (0 + xs.length) ys).flatMap fun e =>
            preorder [e.step] (rebuild hang [e.step] e.child)) := by
    rw [statementReports, statementEdges_append, List.flatMap_append]
  rw [hall, checkVisits_append]
  refine hfirst.bind fun ds ds' hds => ?_
  exact hsecond.bind fun es es' hes => .ok (List.rel_append hds hes)

end Statements

/-- The rules other than the one about exports are local.  With them, the analysis of a program succeeds
when it does for the first statements and for the others, and then it gives their diagnostics, put in
order together: those at an earlier place first, those at the same place as they are.  Ways back aside,
which lead elsewhere in the longer program, they are the same diagnostics; if the positions hold neither
lists nor objects, there is nothing to set aside. -/
theorem lint_append {frame : Fields} (hframe : Fields.get frame "type" = .str "Program")
    (rules : List Rule) (hrules : .exportCodeLast ∉ rules) (options : Value) (debug : Bool)
    (text bindings : Value) (xs ys : List Value) :
    let outcome (statements : List Value) :=
      lint ⟨rules, options, debug⟩ (programOf frame statements) text bindings
    ((∃ fs, outcome (xs ++ ys) = .ok fs) ↔
      (∃ ds, outcome xs = .ok ds) ∧ ∃ es, outcome ys = .ok es) ∧
    ∀ ds es fs, outcome xs = .ok ds → outcome ys = .ok es → outcome (xs ++ ys) = .ok fs →
      fs.map (Diagnostic.settled fun _ => .null) =
        (inOrder (ds ++ es)).map (Diagnostic.settled fun _ => .null) ∧
      ((∀ d ∈ ds ++ es, d.HasPlainPosition) → fs = inOrder (ds ++ es)) := by
  intro outcome
  have hlint : ∀ statements, outcome statements = _ :=
    lint_programOf hframe hrules options debug text bindings
  rw [hlint, hlint, hlint]
  cases hcopied : copyOptions options with
  | error fault => simp
  | ok copied =>
    have hboth := statementReports_append hframe
      (rule_ne_of_mem_contexts hrules options debug copied text bindings) xs ys
    simp only [ok_bind]
    generalize Engine.contexts _ copied text bindings = contexts at hboth ⊢
    generalize statementReports contexts frame xs = first at hboth ⊢
    generalize statementReports contexts frame ys = second at hboth ⊢
    generalize statementReports contexts frame (xs ++ ys) = whole at hboth ⊢
    cases first with
    | error fault => cases hboth; simp
    | ok found =>
      cases second with
      | error fault => cases hboth; simp
      | ok more =>
        simp only [ok_bind, pure_eq_ok] at hboth
        cases hboth with
        | ok hlike =>
          refine ⟨⟨fun _ => ⟨⟨_, rfl⟩, _, rfl⟩, fun _ => ⟨_, rfl⟩⟩, ?_⟩
          rintro ds es fs ⟨rfl⟩ ⟨rfl⟩ ⟨rfl⟩
          have hsorted := (ruleLikeness_settled fun _ => .null).inOrder_like hlike
          rw [← inOrder_append_inOrder] at hsorted
          refine ⟨(map_settled_of_like hsorted).symm, fun hplain => ?_⟩
          refine (eq_of_plainPositions hsorted fun d hd => ?_).symm
          exact hplain d ((inOrder_perm _).mem_iff.mp hd)

/-- A switch statement, and a conditional that comes after it but has its place before it: of the program
with both, the other branch of the conditional is reported first. -/
theorem lint_append_swapped :
    let placed (kind : String) (start : Int) (fields : Fields) : Value :=
      .obj ([("type", .str kind), ("start", .int start), ("end", .int (start + 1))] ++ fields)
    let first := placed "SwitchStatement" 9 []
    let second := placed "IfStatement" 2 [("alternate", placed "EmptyStatement" 3 [])]
    let outcome (statements : List Value) :=
      lint ⟨[.noSwitch, .noElse], .null, false⟩ (programOf [("type", .str "Program")] statements) .null
        .null
    ∃ d e, d.rule = .noSwitch ∧ e.rule = .noElse ∧ outcome [first] = .ok [d] ∧
      outcome [second] = .ok [e] ∧ outcome ([first] ++ [second]) = .ok [e, d] := by
  intro placed first second outcome
  have hframe : Fields.get [("type", .str "Program")] "type" = .str "Program" := rfl
  have hrules : Rule.exportCodeLast ∉ [Rule.noSwitch, .noElse] := by decide
  -- Each statement alone gives one diagnostic at a plain position.
  have hfirst : (outcome [first]).toOption.map (List.map fun d => (d.rule, d.position,
      decide d.HasPlainPosition)) = some [(.noSwitch, 9, true)] := by decide +kernel
  have hsecond : (outcome [second]).toOption.map (List.map fun d => (d.rule, d.position,
      decide d.HasPlainPosition)) = some [(.noElse, 3, true)] := by decide +kernel
  obtain ⟨ds, hds, hfound⟩ := Option.map_eq_some_iff.mp hfirst
  obtain ⟨es, hes, hmore⟩ := Option.map_eq_some_iff.mp hsecond
  obtain ⟨d, rfl, hd⟩ := List.map_eq_singleton_iff.mp hfound
  obtain ⟨e, rfl, he⟩ := List.map_eq_singleton_iff.mp hmore
  simp only [Prod.mk.injEq, decide_eq_true_eq] at hd he
  rw [toOption_eq_some_iff] at hds hes
  obtain ⟨hiff, hsame⟩ := lint_append hframe _ hrules .null false .null .null [first] [second]
  obtain ⟨fs, hfs⟩ := hiff.mpr ⟨⟨_, hds⟩, _, hes⟩
  have hplain : ∀ r ∈ [d] ++ [e], r.HasPlainPosition := by
    intro r hr
    simp only [List.cons_append, List.nil_append, List.mem_cons, List.not_mem_nil, or_false] at hr
    rcases hr with rfl | rfl
    · exact hd.2.2
    · exact he.2.2
  have hboth : fs = inOrder ([d] ++ [e]) := (hsame _ _ _ hds hes hfs).2 hplain
  have horder : inOrder ([d] ++ [e]) = [e, d] := by
    simp [inOrder, List.mergeSort, hd.2.1, he.2.1]
  exact ⟨d, e, hd.1, he.1, hds, hes, by rw [← horder, ← hboth]; exact hfs⟩

end TreeLint.Rule
