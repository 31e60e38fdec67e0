/-
  Which functions are exported wrappers.

  A function is told to be exported by its way back: it has to lead to an export statement that holds the
  function, and not one like it, as its declaration.  In a linked tree that is a matter of places alone.  The
  rule about wrappers then reports the functions in such places that only pass their parameters on, each of
  them once, and nothing else.
-/
import TreeLint.Proofs.Estree
import TreeLint.Proofs.Reports

set_option autoImplicit false

namespace TreeLint.Syntax

open TreeLint.Json

/-! ## Linked trees -/

/-- A tree that was linked can be walked. -/
theorem walk_of_linkTree {tree program : Value} (h : linkTree tree = .ok program) :
    walk program = .ok (preorder [] program) := by
  obtain ⟨fields, rfl, hkey, rfl⟩ := exists_fields_of_linkTree h
  have htype : Fields.get (hang [] (rebuildFields hang [] (childFields fields) fields)) "type" =
      Fields.get fields "type" := by
    rw [get_rebuilt touchesParent_hang [] fields (by decide)]
    split
    · cases hvalue : Fields.get fields "type" with
      | arr | obj | link =>
        rw [hvalue] at hkey
        cases hkey
      | _ => simp only [rebuildField]
    · rfl
  rw [walk_eq, checkedEdges, Value.get, ok_bind, htype, Value.key, if_pos hkey]
  rfl

/-- Nothing leads back from the root of a tree that was linked. -/
theorem isExportedDirectly_of_root {tree program : Value} (h : linkTree tree = .ok program) :
    isExportedDirectly program [] program = .ok false := by
  obtain ⟨fields, rfl, _, rfl⟩ := exists_fields_of_linkTree h
  rw [isExportedDirectly, Value.get, ok_bind, hang, Fields.get_put_self]
  rfl

/-! ## What an export declares -/

/-- The value is an export statement with a declaration. -/
def DeclaringExport (v : Value) : Prop :=
  isKind v "ExportNamedDeclaration" = true ∨ isKind v "ExportDefaultDeclaration" = true

/-- The node at the path is the declaration of an export: the statement that it is reached from is an
export, and the node is what the statement's field `declaration` holds, not an item of it. -/
def DeclaredByExport (root : Value) (path : Path) (node : Value) : Prop :=
  ∃ above statement, path = ⟨"declaration", none⟩ :: above ∧ Reaches root above statement ∧
    DeclaringExport statement ∧ fieldOf statement "declaration" = node

/-- The path of a node leads to it alone. -/
theorem Reaches.at?_eq {root node : Value} {path : Path} (h : Reaches root path node) :
    at? root path = some node :=
  at?_of_mem_preorder rfl (mem_preorder_iff_reaches.mpr h)

theorem Reaches.unique {root v w : Value} {path : Path} (hv : Reaches root path v)
    (hw : Reaches root path w) : v = w :=
  Option.some.inj (hv.at?_eq.symm.trans hw.at?_eq)

/-- A child that is no item of a list is the value of its field. -/
theorem Reaches.fieldOf_eq {root v child : Value} {path : Path} {name : String}
    (hv : Reaches root path v) (hchild : Reaches root (⟨name, none⟩ :: path) child) :
    fieldOf v name = child := by
  have hat := hchild.at?_eq
  rw [at?, hv.at?_eq] at hat
  cases v with
  | obj fields =>
    dsimp only at hat
    rw [fieldOf_obj, Fields.get, hat, Option.getD_some]
  | _ => cases hat

/-- In a linked tree the way back tells whether a node is the declaration of an export. -/
theorem isExportedDirectly_decides {tree program : Value} (h : linkTree tree = .ok program)
    {path : Path} {node : Value} (hreached : Reaches program path node) :
    Decides (isExportedDirectly program path node) (DeclaredByExport program path node) := by
  cases hreached with
  | root =>
    refine .inr ⟨isExportedDirectly_of_root h, ?_⟩
    rintro ⟨above, statement, hpath, _⟩
    cases hpath
  | @child above statement e habove he =>
    have hparent := isLinked_of_linkTree h _ (mem_preorder_iff_reaches.mpr habove) e he
    rw [isExportedDirectly_child habove.at?_eq e.step hparent]
    refine (Decides.of_bool _).congr ?_
    rw [Bool.and_eq_true, Bool.or_eq_true, beq_iff_eq]
    constructor
    · rintro ⟨hexport, hstep⟩
      have hchild : Reaches program (e.step :: above) e.child := habove.child he
      rw [hstep] at hchild
      exact ⟨above, statement, by rw [hstep], habove, hexport, habove.fieldOf_eq hchild⟩
    · rintro ⟨above', statement', hpath, habove', hexport, _⟩
      obtain ⟨hstep, rfl⟩ := List.cons.inj hpath
      rw [habove.unique habove']
      exact ⟨hexport, hstep⟩

end TreeLint.Syntax

namespace TreeLint.Rule

open TreeLint.Json TreeLint.Syntax TreeLint.Source

/-- The node at the path is a function that an export declares and that only passes its parameters on. -/
structure ExportedWrapper (root : Value) (path : Path) (node : Value) : Prop where
  /-- It is a function. -/
  function : IsFunction node
  /-- It is the declaration of an export. -/
  exported : DeclaredByExport root path node
  /-- It passes its parameters on and does nothing else. -/
  forwards : forwardsParameters node = .ok true

theorem looksAt_emptyWrappers_iff {node : Value} :
    Rule.noEmptyWrappers.looksAt node = true ↔ IsFunction node :=
  List.any_eq_true

/-- In a linked tree the rule finds the exported wrappers. -/
theorem finds_emptyWrappers {tree program : Value} (h : linkTree tree = .ok program) :
    Finds program .noEmptyWrappers "noEmptyWrapper"
      fun path node target => target = node ∧ ExportedWrapper program path node := by
  intro visit hvisit context found hrule hfound
  have hdecides := isExportedDirectly_decides h (mem_preorder_iff_reaches.mp hvisit)
  rw [findings, hrule] at hfound
  split at hfound
  · next hlooks =>
    have hfunction := looksAt_emptyWrappers_iff.mp hlooks
    dsimp only at hfound
    rw [wrapperFindings] at hfound
    rcases hdecides with ⟨hyes, hexported⟩ | ⟨hno, hexported⟩
    · rw [hyes, ok_bind, if_pos rfl] at hfound
      obtain ⟨forwards, hforwards, hfound⟩ := bind_eq_ok_iff.mp hfound
      cases forwards with
      | false =>
        cases hfound
        refine .inl ⟨rfl, fun target htarget => ?_⟩
        cases htarget.2.forwards.symm.trans hforwards
      | true =>
        cases hfound
        exact .inr ⟨visit.node, rfl, fun other => and_iff_left ⟨hfunction, hexported, hforwards⟩⟩
    · rw [hno] at hfound
      cases hfound
      exact .inl ⟨rfl, fun target htarget => hexported htarget.2.exported⟩
  · next hother =>
    cases hfound
    exact .inl ⟨rfl, fun target htarget => hother (looksAt_emptyWrappers_iff.mpr htarget.2.function)⟩

/-- An object can be reported when it has a place. -/
theorem exists_report_iff {context : Context} {id : String}
    (hid : (context.rule.info.messages.lookup id).isSome = true) (fields : Fields) :
    (∃ d, context.report (.obj fields) id = .ok d) ↔
      ∃ location, context.source.locationOf (.obj fields) = .ok location := by
  obtain ⟨message, hmessage⟩ := Option.isSome_iff_exists.mp hid
  constructor
  · rintro ⟨d, hd⟩
    exact ⟨d.location, (standsFor_of_report hd).location⟩
  · rintro ⟨location, hlocation⟩
    exact ⟨⟨context.rule, id, message, location, spanOf fields⟩,
      by simp [Context.report, hmessage, hlocation, Syntax.span]⟩

/-- At a node of a linked tree the rule ends without a fault when it can be said of a function that an export
declares whether it is a wrapper, and the wrapper has a place. -/
theorem exists_checkEmptyWrapper_iff {tree program : Value} (h : linkTree tree = .ok program)
    {context : Context} (hrule : context.rule = .noEmptyWrappers) {path : Path} {node : Value}
    (hreached : Reaches program path node) (hfunction : IsFunction node) :
    (∃ ds, checkEmptyWrapper context program ⟨path, node⟩ = .ok ds) ↔
      (DeclaredByExport program path node → ∃ forwards, forwardsParameters node = .ok forwards ∧
        (forwards = true → ∃ location, context.source.locationOf node = .ok location)) := by
  have hreport : (∃ d, context.report node "noEmptyWrapper" = .ok d) ↔
      ∃ location, context.source.locationOf node = .ok location := by
    obtain ⟨kind, _, hkind⟩ := hfunction
    obtain ⟨fields, _, rfl, _⟩ := isNode_iff.mp (isNode_of_isKind hkind)
    exact exists_report_iff (by rw [hrule]; rfl) fields
  rw [checkEmptyWrapper]
  rcases isExportedDirectly_decides h hreached with ⟨hyes, hexported⟩ | ⟨hno, hexported⟩
  · rw [hyes, ok_bind, if_pos rfl, ← hreport]
    simp only [hexported, true_implies]
    cases forwardsParameters node with
    | error fault => simp
    | ok forwards =>
      cases forwards with
      | false => simp
      | true => simp [bind_eq_ok_iff]
  · rw [hno, ok_bind, if_neg Bool.false_ne_true]
    simp [hexported]

/-- The rule ends without a fault on a linked tree when it does so at the functions that exports declare. -/
theorem exists_run_emptyWrappers_iff {tree program : Value} (h : linkTree tree = .ok program)
    (options : Value) (debug : Bool) (text bindings : Value) :
    (∃ ds, Engine.run ⟨[.noEmptyWrappers], options, debug⟩ program text bindings = .ok ds) ↔
      (∃ copied, copyOptions options = .ok copied) ∧
        ∀ path node, Reaches program path node → IsFunction node → DeclaredByExport program path node →
          ∃ forwards, forwardsParameters node = .ok forwards ∧
            (forwards = true → ∃ location, locationOf ⟨text⟩ node = .ok location) := by
  -- The rule does at each visit what it does alone there.
  have hvisits : ∀ copied, (∃ found, checkVisits
      (Engine.contexts ⟨[.noEmptyWrappers], options, debug⟩ copied text bindings) program
      (preorder [] program) = .ok found) ↔
      ∀ path node, Reaches program path node → IsFunction node → DeclaredByExport program path node →
        ∃ forwards, forwardsParameters node = .ok forwards ∧
          (forwards = true → ∃ location, locationOf ⟨text⟩ node = .ok location) := by
    intro copied
    rw [exists_checkVisits_iff_nodes]
    constructor
    · intro hall path node hreached hfunction
      have hnode := hall ⟨path, node⟩ (mem_preorder_iff_reaches.mpr hreached)
      rw [Engine.contexts, List.map_singleton, checkNode_singleton, reportsAt,
        if_pos (looksAt_emptyWrappers_iff.mpr hfunction)] at hnode
      exact (exists_checkEmptyWrapper_iff h rfl hreached hfunction).mp hnode
    · rintro hall ⟨path, node⟩ hvisit
      rw [Engine.contexts, List.map_singleton, checkNode_singleton, reportsAt]
      split
      · next hlooks =>
        have hreached := mem_preorder_iff_reaches.mp hvisit
        have hfunction := looksAt_emptyWrappers_iff.mp hlooks
        exact (exists_checkEmptyWrapper_iff h rfl hreached hfunction).mpr (hall path node hreached hfunction)
      · exact ⟨[], rfl⟩
  constructor
  · rintro ⟨ds, hrun⟩
    obtain ⟨copied, visits, found, hcopied, hwalk, hfound, _⟩ := run_eq_ok_iff.mp hrun
    rw [walk_of_linkTree h] at hwalk
    cases hwalk
    exact ⟨⟨copied, hcopied⟩, (hvisits copied).mp ⟨found, hfound⟩⟩
  · rintro ⟨⟨copied, hcopied⟩, hall⟩
    obtain ⟨found, hfound⟩ := (hvisits copied).mpr hall
    exact ⟨_, run_eq_ok_iff.mpr ⟨copied, _, found, hcopied, walk_of_linkTree h, hfound, rfl⟩⟩

/-- What the rule says of a child depends on the child, on its place and on the kind of the node that holds
it, and on nothing else in the tree. -/
theorem checkEmptyWrapper_congr {tree program other : Value} (h : linkTree tree = .ok program)
    (context : Context) {above : Path} {v w : Value} {e : Edge} (hv : Reaches program above v)
    (he : e ∈ edges v) (hw : Reaches other above w) (hkind : kind? w = kind? v) :
    checkEmptyWrapper context other ⟨e.step :: above, e.child⟩ =
      checkEmptyWrapper context program ⟨e.step :: above, e.child⟩ := by
  have hparent := isLinked_of_linkTree h _ (mem_preorder_iff_reaches.mpr hv) e he
  rw [checkEmptyWrapper, checkEmptyWrapper, isExportedDirectly_child hv.at?_eq e.step hparent,
    isExportedDirectly_child hw.at?_eq e.step hparent, isKind_congr hkind, isKind_congr hkind]

/-- What the rule about wrappers says of a linked tree.  It ends without a fault exactly when it can be said
of each function that an export declares whether it only passes its parameters on, and each that does has a
place.  Then it reports these functions, each once, and nothing else: a function is reported if it stands in
the field `declaration` of an export, alone and not in a list, and passes its parameters on.  What is said of
a child of a node is the same in any other tree with a node of the same kind in that place, so that functions
like it elsewhere make no difference. -/
theorem emptyWrappers_exact (tree program : Value) (hlink : linkTree tree = .ok program) (options : Value)
    (debug : Bool) (text bindings : Value) :
    ((∃ ds, Engine.run ⟨[.noEmptyWrappers], options, debug⟩ program text bindings = .ok ds) ↔
      (∃ copied, copyOptions options = .ok copied) ∧
        ∀ path node, Reaches program path node → IsFunction node → DeclaredByExport program path node →
          ∃ forwards, forwardsParameters node = .ok forwards ∧
            (forwards = true → ∃ location, locationOf ⟨text⟩ node = .ok location)) ∧
    (∀ ds, Engine.run ⟨[.noEmptyWrappers], options, debug⟩ program text bindings = .ok ds →
      ∃ reported, ExactFor program text .noEmptyWrappers "noEmptyWrapper"
        (fun path node target => target = node ∧ ExportedWrapper program path node) reported ds) ∧
    ∀ context other above v w (e : Edge), Reaches program above v → e ∈ edges v →
      Reaches other above w → kind? w = kind? v →
      checkEmptyWrapper context other ⟨e.step :: above, e.child⟩ =
        checkEmptyWrapper context program ⟨e.step :: above, e.child⟩ := by
  refine ⟨exists_run_emptyWrappers_iff hlink options debug text bindings, fun ds hrun => ?_, ?_⟩
  · exact exactFor_of_finds (finds_emptyWrappers hlink) hrun
  · intro context other above v w e hv he hw hkind
    exact checkEmptyWrapper_congr hlink context hv he hw hkind

/-- `export function f() { return g(); }`, an export whose declaration is a list with the same function, and
the function alone, each with a way back from before: the first is reported, and the others are not. -/
theorem emptyWrappers_exact_copies :
    let node (kind : String) (fields : Fields) : Value := .obj (("type", .str kind) :: fields)
    let call := node "CallExpression" [("callee", .null), ("arguments", .arr [])]
    let body := node "BlockStatement" [("body", .arr [node "ReturnStatement" [("argument", call)]])]
    let wrapper := node "FunctionDeclaration" [("parent", call), ("params", .arr []), ("body", body)]
    let tree := node "Program" [("body", .arr [
      node "ExportNamedDeclaration" [("declaration", wrapper)],
      node "ExportNamedDeclaration" [("declaration", .arr [wrapper])], wrapper])]
    ∃ program ds reported, linkTree tree = .ok program ∧
      Engine.run ⟨[.noEmptyWrappers], .null, false⟩ program .null .null = .ok ds ∧
      ExactFor program .null .noEmptyWrappers "noEmptyWrapper"
        (fun path node target => target = node ∧ ExportedWrapper program path node) reported ds ∧
      reported.map (fun r => r.1.path) = [[⟨"declaration", none⟩, ⟨"body", some 0⟩]] := by
  intro node call body wrapper tree
  have hlink : linkTree tree = .ok (rebuild hang [] tree) := linkTree_eq (by decide)
  have hcount : (checkVisits (Engine.contexts ⟨[.noEmptyWrappers], .null, false⟩ [] .null .null)
      (rebuild hang [] tree) (preorder [] (rebuild hang [] tree))).toOption.map List.length = some 1 := by
    decide +kernel
  obtain ⟨found, hfound, hlength⟩ := Option.map_eq_some_iff.mp hcount
  have hrun : Engine.run ⟨[.noEmptyWrappers], .null, false⟩ (rebuild hang [] tree) .null .null =
      .ok (inOrder found) :=
    run_eq_ok_iff.mpr
      ⟨[], _, found, rfl, walk_of_linkTree hlink, toOption_eq_some_iff.mp hfound, rfl⟩
  obtain ⟨_, hverdicts, _⟩ := emptyWrappers_exact tree _ hlink .null false .null .null
  obtain ⟨reported, hexact⟩ := hverdicts _ hrun
  refine ⟨_, _, reported, hlink, hrun, hexact, ?_⟩
  have hplaces : ((preorder [] (rebuild hang [] tree)).map Visit.path).filter
      (fun path => path.head? == some ⟨"declaration", none⟩) =
      [[⟨"declaration", none⟩, ⟨"body", some 0⟩]] := by decide +kernel
  obtain ⟨written, hperm, hstands⟩ := hexact.diagnostics
  have hone : reported.length = 1 := by
    rw [hstands.length_eq, ← hperm.length_eq, (inOrder_perm found).length_eq, hlength]
  obtain ⟨⟨⟨path, function⟩, target⟩, rfl⟩ := List.length_eq_one_iff.mp hone
  obtain ⟨hreached, _, hwrapper⟩ := (hexact.verdicts path function target).mp List.mem_cons_self
  obtain ⟨above, _, rfl, _⟩ := hwrapper.exported
  have hmem : ⟨"declaration", none⟩ :: above ∈ ((preorder [] (rebuild hang [] tree)).map Visit.path).filter
      (fun path => path.head? == some ⟨"declaration", none⟩) :=
    List.mem_filter.mpr ⟨List.mem_map_of_mem (mem_preorder_iff_reaches.mpr hreached), rfl⟩
  rw [hplaces] at hmem
  exact congrArg (fun path => [path]) (List.mem_singleton.mp hmem)

end TreeLint.Rule
