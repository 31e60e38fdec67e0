/-
  Runs that end without a fault.

  The rules read fields that may be missing, take the only or the last item of lists, compare offsets and
  look names up, and each of these steps can end a run.  On a linked program with the shape of ESTree none of
  them does: whatever rules are chosen, with options that were accepted, with a text or without, and with a
  plain table of bindings or none.
-/
import TreeLint.Proofs.Estree
import TreeLint.Proofs.ExportVerdict
import TreeLint.Proofs.Traversal

set_option autoImplicit false

namespace TreeLint.Rule

open TreeLint.Json TreeLint.Syntax TreeLint.Source TreeLint.Usage

/-! ## Options -/

/-- Steps over a row that all end well end well one by one. -/
theorem eq_ok_of_forM {α : Type} {f : α → Except Fault PUnit} {xs : List α}
    (h : xs.forM f = .ok ()) : ∀ x ∈ xs, f x = .ok () := by
  induction xs with
  | nil => simp
  | cons x rest ih =>
    have h : (f x >>= fun _ => rest.forM f) = .ok () := h
    obtain ⟨_, hx, hrest⟩ := bind_eq_ok_iff.mp h
    intro y hy
    rcases List.mem_cons.mp hy with rfl | hy
    · exact hx
    · exact ih hrest y hy

/-- Options for a rule that were accepted can be copied. -/
theorem exists_ofValue {name : String} {values : Value} (h : checkRuleOptions name values = .ok ()) :
    ∃ table, Table.ofValue values = .ok table := by
  obtain ⟨fields, hfields⟩ : ∃ fields, fieldsOrNone values = .ok fields := by
    unfold checkRuleOptions at h
    split at h
    · cases h
    · obtain ⟨fields, hfields, _⟩ := bind_eq_ok_iff.mp h
      exact ⟨fields, hfields⟩
  unfold Table.ofValue
  by_cases hpresent : values.truthy = true
  · rw [if_pos hpresent]
    cases values with
    | obj fields => exact ⟨_, rfl⟩
    | _ => simp [fieldsOrNone, hpresent] at hfields
  · rw [if_neg hpresent]
    exact ⟨_, rfl⟩

/-- Options that were accepted can be copied. -/
theorem exists_copyOptions {options : Value} (h : checkOptions options = .ok ()) :
    ∃ copied, copyOptions options = .ok copied := by
  obtain ⟨fields, hfields, hall⟩ := bind_eq_ok_iff.mp h
  rw [copyOptions, hfields, ok_bind, exists_mapM_eq_ok_iff]
  rintro ⟨name, values⟩ hmem
  obtain ⟨table, htable⟩ := exists_ofValue (eq_ok_of_forM hall (name, values) hmem)
  exact ⟨(name, table), bind_eq_ok_iff.mpr ⟨table, htable, rfl⟩⟩

/-! ## One rule at a node -/

section Checks

variable {context : Context} {node : Value}
  (htext : context.source.text = .null ∨ ∃ text, context.source.text = .str text)

include htext

/-- A node with the shape can be reported under each message of a rule. -/
theorem gives_report (id : String) (hid : (context.rule.info.messages.lookup id).isSome = true)
    (h : Estree node) : Gives (context.report node id) fun _ => True := by
  obtain ⟨message, hmessage⟩ := Option.isSome_iff_exists.mp hid
  have hspan := shapedBy_estree.hasPlainSpan h
  obtain ⟨fields, _, rfl, _⟩ := isNode_iff.mp h.isNode
  exact .of_exists_ok (exists_report hmessage htext hspan)

theorem exists_checkGuardClauses (hrule : context.rule = .requireGuardClauses) (h : Estree node)
    (hfunction : IsFunction node) : ∃ ds, checkGuardClauses context node = .ok ds := by
  suffices hgives : Gives (checkGuardClauses context node) fun _ => True from hgives.exists_ok
  refine (gives_wholeBodyConditional h hfunction).bind fun found hfound => ?_
  cases found with
  | none => exact .ok trivial
  | some conditional =>
    have hreport := gives_report htext "requireGuardClause" (by rw [hrule]; rfl) (hfound conditional rfl)
    exact hreport.bind fun d _ => .ok trivial

theorem exists_checkEmptyWrapper (hrule : context.rule = .noEmptyWrappers) {root : Value} {path : Path}
    (h : Estree node) (hfunction : IsFunction node)
    (hexported : ∃ b, isExportedDirectly root path node = .ok b) :
    ∃ ds, checkEmptyWrapper context root ⟨path, node⟩ = .ok ds := by
  suffices hgives : Gives (checkEmptyWrapper context root ⟨path, node⟩) fun _ => True from
    hgives.exists_ok
  refine (Gives.of_exists_ok hexported).bind fun exported _ => .ite (fun _ => ?_) fun _ => .ok trivial
  have hforwards := exists_forwardsParameters h hfunction
  refine (Gives.of_exists_ok hforwards).bind fun forwards _ => .ite (fun _ => ?_) fun _ => .ok trivial
  exact (gives_report htext "noEmptyWrapper" (by rw [hrule]; rfl) h).bind fun d _ => .ok trivial

theorem exists_checkSwitch (hrule : context.rule = .noSwitch) (h : Estree node) :
    ∃ ds, checkSwitch context node = .ok ds := by
  suffices hgives : Gives (checkSwitch context node) fun _ => True from hgives.exists_ok
  exact (gives_report htext "noSwitch" (by rw [hrule]; rfl) h).bind fun d _ => .ok trivial

theorem exists_checkElse (hrule : context.rule = .noElse) (h : Estree node)
    (hkind : isKind node "IfStatement" = true) : ∃ ds, checkElse context node = .ok ds := by
  have hbranch := h.one hkind "alternate" (by decide)
  obtain ⟨fields, _, rfl, _⟩ := isNode_iff.mp h.isNode
  rw [fieldOf_obj] at hbranch
  suffices hgives : Gives (checkElse context (.obj fields)) fun _ => True from hgives.exists_ok
  rw [checkElse, Value.get, ok_bind]
  refine .ite (fun _ => .ok trivial) fun hpresent => ?_
  have hshape := hbranch.resolve_left fun hnull => hpresent (isNull_iff.mpr hnull)
  exact (gives_report htext "noElse" (by rw [hrule]; rfl) hshape).bind fun d _ => .ok trivial

/-- Whether a block swallows the error can always be said. -/
theorem exists_swallows (h : Estree node) : ∃ b, swallows context.source node = .ok b := by
  have hspan := shapedBy_estree.hasPlainSpan h
  obtain ⟨fields, _, rfl, _⟩ := isNode_iff.mp h.isNode
  suffices hgives : Gives (swallows context.source (.obj fields)) fun _ => True from hgives.exists_ok
  rw [swallows, Value.get, ok_bind]
  refine .ite (fun _ => ?_) fun _ => .ok trivial
  refine (gives_textOf htext hspan).bind fun found hfound => ?_
  rcases hfound with rfl | ⟨s, rfl⟩
  · exact .ok trivial
  · exact .ok trivial

theorem exists_checkCatch (hrule : context.rule = .noSwallowedCatch) (h : Estree node)
    (hkind : isKind node "CatchClause" = true) : ∃ ds, checkCatch context node = .ok ds := by
  have hbody := h.one hkind "body" (by decide)
  obtain ⟨fields, _, rfl, _⟩ := isNode_iff.mp h.isNode
  rw [fieldOf_obj] at hbody
  suffices hgives : Gives (checkCatch context (.obj fields)) fun _ => True from hgives.exists_ok
  rw [checkCatch, Value.get, ok_bind]
  rcases hbody with hnull | hblock
  · rw [hnull]
    exact .ok trivial
  · obtain ⟨block, _, heq, _⟩ := isNode_iff.mp hblock.isNode
    rw [heq] at hblock ⊢
    simp only [Value.get, ok_bind]
    refine .ite (fun _ => ?_) fun _ => .ok trivial
    refine (Gives.of_exists_ok (exists_swallows htext hblock)).bind fun swallowed _ => ?_
    refine .ite (fun _ => ?_) fun _ => .ok trivial
    exact (gives_report htext "noSwallowedCatch" (by rw [hrule]; rfl) hblock).bind fun d _ => .ok trivial

theorem exists_checkExports_program (hrule : context.rule = .exportCodeLast) (h : Estree node)
    (hkind : isKind node "Program" = true) (hbindings : PlainBindings context.bindings) :
    ∃ ds, checkExports context node = .ok ds := by
  have hbody := h.many hkind "body" (by decide)
  obtain ⟨fields, _, rfl, _⟩ := isNode_iff.mp h.isNode
  rw [fieldOf_obj] at hbody
  rcases hbody with hnull | ⟨statements, hitems, hall⟩
  · refine ⟨[], ?_⟩
    rw [checkExports, Value.get, ok_bind, hnull]
    rfl
  · exact exists_checkExports exportReading_estree hrule htext hkind hitems hall hbindings

/-- Every rule that looks at a node with the shape ends without a fault. -/
theorem exists_check {root : Value} {path : Path} (h : Estree node)
    (hlooks : context.rule.looksAt node = true) (hbindings : PlainBindings context.bindings)
    (hexported : ∃ b, isExportedDirectly root path node = .ok b) :
    ∃ ds, check context root ⟨path, node⟩ = .ok ds := by
  obtain ⟨kind, hmem, hkind⟩ := List.any_eq_true.mp hlooks
  rw [check]
  cases hrule : context.rule with
  | requireGuardClauses =>
    rw [hrule] at hmem
    exact exists_checkGuardClauses htext hrule h ⟨kind, hmem, hkind⟩
  | noSwallowedCatch =>
    rw [hrule] at hmem
    obtain rfl := List.mem_singleton.mp hmem
    exact exists_checkCatch htext hrule h hkind
  | exportCodeLast =>
    rw [hrule] at hmem
    obtain rfl := List.mem_singleton.mp hmem
    exact exists_checkExports_program htext hrule h hkind hbindings
  | noEmptyWrappers =>
    rw [hrule] at hmem
    exact exists_checkEmptyWrapper htext hrule h ⟨kind, hmem, hkind⟩ hexported
  | noSwitch => exact exists_checkSwitch htext hrule h
  | noElse =>
    rw [hrule] at hmem
    obtain rfl := List.mem_singleton.mp hmem
    exact exists_checkElse htext hrule h hkind

end Checks

/-! ## Runs -/

/-- In a linked tree, whether a node is declared by an export can be said of every node. -/
theorem exists_isExportedDirectly {tree : Value} (h : isNode tree = true) {path : Path} {node : Value}
    (hreached : Reaches (rebuild hang [] tree) path node) :
    ∃ b, isExportedDirectly (rebuild hang [] tree) path node = .ok b := by
  cases hreached with
  | root => exact ⟨false, isExportedDirectly_root h⟩
  | child habove he =>
    have hvisit := mem_preorder_iff_reaches.mpr habove
    have hat := at?_of_mem_preorder rfl hvisit
    exact ⟨_, isExportedDirectly_child hat _ (isLinked_link [] h _ hvisit _ he)⟩

/-- The rules end without a fault on every linked program with the shape of ESTree: every choice of them,
with options that are accepted, with a text or without one, and with a plain table of bindings or none. -/
theorem run_of_estree (wanted options : Value) (debug : Bool) (built : Engine)
    (hbuild : Engine.build wanted options debug = .ok built) (rules : List Rule) (tree program : Value)
    (hlink : linkTree tree = .ok program) (hshape : Estree program) (text bindings : Value)
    (htext : text = .null ∨ ∃ s, text = .str s) (hbindings : PlainBindings bindings) :
    ∃ ds, Engine.run ⟨rules, options, debug⟩ program text bindings = .ok ds := by
  have hnode : isNode tree = true := isNode_of_linkTree hlink hshape.isNode
  rw [linkTree_eq hnode] at hlink
  obtain rfl := Except.ok.inj hlink
  obtain ⟨_, _, hrest⟩ := bind_eq_ok_iff.mp hbuild
  obtain ⟨_, hoptions, _⟩ := bind_eq_ok_iff.mp hrest
  obtain ⟨copied, hcopied⟩ := exists_copyOptions hoptions
  have hvisits : ∃ found, checkVisits (Engine.contexts ⟨rules, options, debug⟩ copied text bindings)
      (rebuild hang [] tree) (preorder [] (rebuild hang [] tree)) = .ok found := by
    rw [exists_checkVisits_iff_nodes]
    rintro ⟨path, node⟩ hvisit
    rw [exists_checkNode_iff]
    intro context hcontext
    obtain ⟨rule, _, rfl⟩ := List.mem_map.mp hcontext
    rw [checkNode_singleton, reportsAt]
    split
    · next hlooks =>
      have hhere := forall_mem_preorder (P := Estree) (fun _ h _ he => shapedBy_estree.child h he) hshape
        hvisit
      exact exists_check htext hhere hlooks hbindings
        (exists_isExportedDirectly hnode (mem_preorder_iff_reaches.mp hvisit))
    · exact ⟨[], rfl⟩
  obtain ⟨found, hfound⟩ := hvisits
  exact ⟨inOrder found, run_eq_ok_iff.mpr
    ⟨copied, _, found, hcopied, walk_of_isNode hshape.isNode, hfound, rfl⟩⟩

/-- `try {} catch { }`, `const { p, ...q } = null;`, `export function f(x, ...y) { return g(x, ...y); }` and
`export default p;`, with a text, a table and an option. -/
theorem run_of_estree_patterns :
    let node (kind : String) (fields : Fields) : Value := .obj (("type", .str kind) :: fields)
    let name (text : String) : Value := node "Identifier" [("name", .str text)]
    let block (statements : List Value) : Value :=
      node "BlockStatement" [("start", .int 13), ("end", .int 16), ("body", .arr statements)]
    let handler := node "CatchClause" [("param", .null), ("body", block [node "EmptyStatement" []])]
    let pattern := node "ObjectPattern" [("properties", .arr [
      node "Property" [("key", name "p"), ("value", name "p")],
      node "RestElement" [("argument", name "q")]])]
    let call := node "CallExpression" [("callee", name "g"), ("arguments", .arr [name "x",
      node "SpreadElement" [("argument", name "y")]])]
    let function := node "FunctionDeclaration" [("id", name "f"), ("params", .arr [name "x",
      node "RestElement" [("argument", name "y")]]),
      ("body", block [node "ReturnStatement" [("argument", call)]])]
    let tree := node "Program" [("body", .arr [
      node "TryStatement" [("block", block []), ("handler", handler)],
      node "VariableDeclaration" [("kind", .str "const"), ("declarations", .arr [
        node "VariableDeclarator" [("id", pattern), ("init", .null)]])],
      node "ExportNamedDeclaration" [("declaration", function)],
      node "ExportDefaultDeclaration" [("start", .int 20), ("end", .int 37), ("declaration", name "p")]])]
    let options : Value := .obj [("export-code-last", .obj [("allowReExport", .bool true)])]
    let bindings : Value := .obj [("p", .arr [.obj [("range", .arr [.int 35, .int 36])]])]
    ∃ built program, Engine.build .null options false = .ok built ∧ linkTree tree = .ok program ∧
      Estree program ∧ PlainBindings bindings ∧
      ∃ ds, Engine.run ⟨Rule.all, options, false⟩ program (.str "try {} catch { }") bindings = .ok ds := by
  intro node name block handler pattern call function tree options bindings
  have hbindings : PlainBindings bindings := by
    refine .inr ⟨_, rfl, fun text => ?_⟩
    by_cases htext : text = "p"
    · subst htext
      refine ⟨_, rfl, fun entry hentry => ?_⟩
      obtain rfl := List.mem_singleton.mp hentry
      exact ⟨_, rfl, rfl⟩
    · have hget : Fields.get [("p", .arr [.obj [("range", .arr [.int 35, .int 36])]])] text = .null := by
        rw [Fields.get, List.lookup_cons, beq_false_of_ne htext]
        rfl
      exact ⟨[], by rw [hget]; rfl, by simp⟩
  obtain ⟨built, hbuild⟩ : ∃ built, Engine.build .null options false = .ok built := ⟨_, rfl⟩
  obtain ⟨program, hlink, hshape⟩ : ∃ program, linkTree tree = .ok program ∧ Estree program :=
    ⟨_, rfl, by decide +kernel⟩
  exact ⟨built, program, hbuild, hlink, hshape, hbindings,
    run_of_estree .null options false built hbuild Rule.all tree program hlink hshape
      (.str "try {} catch { }") bindings (.inr ⟨_, rfl⟩) hbindings⟩

end TreeLint.Rule
