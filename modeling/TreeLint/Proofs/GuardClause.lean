/-
  Which functions need a guard clause.

  A function needs one when a single conditional with one branch is its whole body, unless that is a guard
  already: a negated test before a statement that leaves the function.  On a program with the shape of
  ESTree the rule reports the conditionals of these functions, one for each, and nothing else.
-/
import TreeLint.Proofs.Faultless
import TreeLint.Proofs.Reports

set_option autoImplicit false

namespace TreeLint.Syntax

open TreeLint.Json

/-! ## Statements that leave a function -/

/-- The statement returns or throws, alone or in blocks that hold nothing else. -/
inductive Leaves : Value → Prop
  /-- A statement that returns or throws. -/
  | here {v : Value} (h : isKind v "ReturnStatement" = true ∨ isKind v "ThrowStatement" = true) :
    Leaves v
  /-- A block with one statement that leaves. -/
  | block {v statement : Value} (kind : isKind v "BlockStatement" = true)
    (only : fieldOf v "body" = .arr [statement]) (inner : Leaves statement) : Leaves v

/-- A list that may be absent has an only item when it is the list of that item. -/
theorem ListOf.only_eq_some_iff {S : Value → Prop} {v item : Value} (h : ListOf S v) :
    v.orEmpty.only = .ok (some item) ↔ v = .arr [item] := by
  rcases h with rfl | ⟨items, rfl, _⟩
  · simp [Value.orEmpty, Value.truthy, Value.only]
  · cases items with
    | nil => simp [Value.orEmpty, Value.truthy, Value.only]
    | cons first rest =>
      cases rest with
      | nil => simp [Value.orEmpty, Value.truthy, Value.only]
      | cons second later => simp [Value.orEmpty, Value.truthy, Value.only]

theorem isOneOf_leaving {fields : Fields} {b : Bool}
    (h : (Fields.get fields "type").isOneOf ["ReturnStatement", "ThrowStatement"] = .ok b) :
    b = true ↔ isKind (.obj fields) "ReturnStatement" = true ∨
      isKind (.obj fields) "ThrowStatement" = true := by
  simp only [isKind_obj_iff]
  cases hkind : Fields.get fields "type" with
  | str s =>
    rw [hkind] at h
    cases h
    simp
  | arr | obj | link =>
    rw [hkind] at h
    cases h
  | _ =>
    rw [hkind] at h
    cases h
    simp

/-- Whether a statement leaves is what the test finds, through any number of blocks. -/
theorem exitsEarly_decides {v : Value} (h : OrAbsent Estree v) : Decides (exitsEarly v) (Leaves v) := by
  have hobject : ∀ {fields : Fields}, OrAbsent Estree (.obj fields) → Estree (.obj fields) :=
    fun h => h.resolve_left (by simp)
  fun_induction exitsEarly v with
  | case1 =>
    refine .inr ⟨rfl, fun hleaves => ?_⟩
    cases hleaves with
    | here h => rcases h with h | h <;> cases h
    | block kind => cases kind
  | case2 fields fault hfault =>
    obtain ⟨_, kind, heq, hkind⟩ := isNode_iff.mp (hobject h).isNode
    cases heq
    rw [hkind] at hfault
    cases hfault
  | case3 fields hyes => exact .inl ⟨rfl, .here ((isOneOf_leaving hyes).mp rfl)⟩
  | case4 fields hno hblock statement honly ih =>
    have hbody := (hobject h).many hblock "body" (by decide)
    have hitem := hbody.only_eq_some_iff.mp honly
    have hshape : Estree statement := by
      rcases hbody with hnull | ⟨items, hitems, hall⟩
      · cases hnull.symm.trans hitem
      · cases hitems.symm.trans hitem
        exact hall statement List.mem_cons_self
    refine (ih (.inr hshape)).congr ⟨.block hblock hitem, fun hleaves => ?_⟩
    cases hleaves with
    | here h => exact absurd ((isOneOf_leaving hno).mpr h) Bool.false_ne_true
    | block _ only inner =>
      cases only.symm.trans hitem
      exact inner
  | case5 fields hno hblock honly =>
    refine .inr ⟨rfl, fun hleaves => ?_⟩
    cases hleaves with
    | here h => exact absurd ((isOneOf_leaving hno).mpr h) Bool.false_ne_true
    | block _ only _ =>
      have hbody := (hobject h).many hblock "body" (by decide)
      cases (hbody.only_eq_some_iff.mpr only).symm.trans honly
  | case6 fields hno hblock fault honly =>
    obtain ⟨items, hitems, _⟩ := (hobject h).block hblock
    obtain ⟨found, hfound, _⟩ := gives_only items
    rw [← hitems, fieldOf_obj, honly] at hfound
    cases hfound
  | case7 fields hno hother =>
    refine .inr ⟨rfl, fun hleaves => ?_⟩
    cases hleaves with
    | here h => exact absurd ((isOneOf_leaving hno).mpr h) Bool.false_ne_true
    | block kind => exact hother kind
  | case8 v hnull hobj =>
    obtain ⟨fields, _, rfl, _⟩ := isNode_iff.mp (h.resolve_left hnull).isNode
    exact (hobj fields rfl).elim

/-! ## Conditionals around a body -/

/-- The expression is `!` before another one. -/
def Negation (v : Value) : Prop :=
  isKind v "UnaryExpression" = true ∧ fieldOf v "operator" = .str "!"

theorem isNegation_decides {v : Value} (h : OrAbsent Estree v) : Decides (isNegation v) (Negation v) := by
  rcases h with rfl | h
  · exact .inr ⟨rfl, fun hnegation => by cases hnegation.1⟩
  · obtain ⟨fields, _, rfl, _⟩ := isNode_iff.mp h.isNode
    rw [isNegation, isText_type]
    refine (Decides.of_bool _).congr ?_
    rw [Bool.and_eq_true, isText_iff]
    rfl

/-- The statement is a conditional with one branch, and no guard: it does not leave the function where a
negated test holds. -/
structure Wraps (v : Value) : Prop where
  /-- It is a conditional. -/
  kind : isKind v "IfStatement" = true
  /-- It has one branch. -/
  branch : fieldOf v "alternate" = .null
  /-- It is no guard. -/
  noGuard : ¬ (Negation (fieldOf v "test") ∧ Leaves (fieldOf v "consequent"))

/-- The conditional is the whole body of the function. -/
structure WrapsBody (function conditional : Value) : Prop extends Wraps conditional where
  /-- The body is a block. -/
  block : isKind (fieldOf function "body") "BlockStatement" = true
  /-- The conditional is all that it holds. -/
  only : fieldOf (fieldOf function "body") "body" = .arr [conditional]

/-- A function has one body, and so one conditional around it at most. -/
theorem WrapsBody.unique {function a b : Value} (ha : WrapsBody function a) (hb : WrapsBody function b) :
    a = b := by
  have heq := ha.only.symm.trans hb.only
  cases heq
  rfl

/-- The tests that are made of an only statement, taken together. -/
def isWrapping (statement : Value) : Except Fault Bool := do
  let kind ← statement.get "type"
  if !kind.isText "IfStatement" then return false
  else if !(← statement.get "alternate").isNull then return false
  else if ← isNegation (← statement.get "test") then
    return !(← exitsEarly (← statement.get "consequent"))
  else return true

/-- The conditional that is searched for is the only statement, if that passes the tests. -/
theorem wholeBodyConditional_of_sole {function : Value} {fields : Fields}
    (h : soleStatement function = .ok (some (.obj fields))) :
    wholeBodyConditional function =
      isWrapping (.obj fields) >>= fun wraps => .ok (if wraps then some (.obj fields) else none) := by
  simp only [wholeBodyConditional, h, isWrapping, Value.get, ok_bind, pure_eq_ok]
  split
  · rfl
  · split
    · rfl
    · cases isNegation (Fields.get fields "test") with
      | error fault => rfl
      | ok negated =>
        cases negated with
        | false => rfl
        | true =>
          rcases exitsEarly (Fields.get fields "consequent") with fault | leaves
          · rfl
          · cases leaves <;> rfl

theorem isWrapping_decides {v : Value} (h : Estree v) : Decides (isWrapping v) (Wraps v) := by
  obtain ⟨fields, _, rfl, _⟩ := isNode_iff.mp h.isNode
  simp only [isWrapping, Value.get, ok_bind, isText_type]
  refine .ite (fun hother => .inr ⟨rfl, fun hwraps => ?_⟩) fun hkind => ?_
  · rw [hwraps.kind] at hother
    cases hother
  have hkind : isKind (.obj fields) "IfStatement" = true := by simpa using hkind
  refine .ite (fun hpresent => .inr ⟨rfl, fun hwraps => ?_⟩) fun hbranch => ?_
  · rw [← fieldOf_obj, hwraps.branch] at hpresent
    cases hpresent
  have hbranch : Fields.get fields "alternate" = .null := isNull_iff.mp (by simpa using hbranch)
  have htest := isNegation_decides (h.one hkind "test" (by decide))
  have hleaves := exitsEarly_decides (h.one hkind "consequent" (by decide))
  refine htest.bind (fun hnegation => ?_) fun hnegation => ?_
  · refine hleaves.bind (fun hguard => ?_) fun hguard => ?_
    · exact .inr ⟨rfl, fun hwraps => hwraps.noGuard ⟨hnegation, hguard⟩⟩
    · exact .inl ⟨rfl, hkind, hbranch, fun hboth => hguard hboth.2⟩
  · exact .inl ⟨rfl, hkind, hbranch, fun hboth => hnegation hboth.1⟩

section Functions

variable {function : Value} (h : Estree function) (hfunction : IsFunction function)

include h hfunction

/-- The conditional around a function's body is what the search for it finds. -/
theorem wholeBodyConditional_eq_some_iff {conditional : Value} :
    wholeBodyConditional function = .ok (some conditional) ↔ WrapsBody function conditional := by
  obtain ⟨found, hfound, hshape⟩ := gives_soleStatement h hfunction
  cases found with
  | none =>
    rw [wholeBodyConditional, hfound]
    refine ⟨fun heq => (by cases heq), fun hwraps => ?_⟩
    obtain ⟨fields, _, rfl, _⟩ := isNode_iff.mp (isNode_of_isKind hwraps.kind)
    cases (soleStatement_eq_some_iff.mpr ⟨hwraps.block, hwraps.only⟩).symm.trans hfound
  | some statement =>
    have hstatement : Estree statement := hshape statement rfl
    have hdecides := isWrapping_decides hstatement
    obtain ⟨fields, _, rfl, _⟩ := isNode_iff.mp hstatement.isNode
    obtain ⟨hblock, honly⟩ := soleStatement_eq_some_iff.mp hfound
    rw [wholeBodyConditional_of_sole hfound]
    rcases hdecides with ⟨hyes, hwraps⟩ | ⟨hno, hwraps⟩
    · rw [hyes]
      constructor
      · intro heq
        cases heq
        exact ⟨hwraps, hblock, honly⟩
      · intro hother
        cases hother.only.symm.trans honly
        rfl
    · rw [hno]
      refine ⟨fun heq => (by cases heq), fun hother => ?_⟩
      cases hother.only.symm.trans honly
      exact (hwraps hother.toWraps).elim

end Functions

/-- Every node of a program with the shape has it. -/
theorem Estree.of_mem_preorder {program : Value} (h : Estree program) {visit : Visit}
    (hvisit : visit ∈ preorder [] program) : Estree visit.node :=
  forall_mem_preorder (P := Estree) (fun _ hnode _ he => shapedBy_estree.child hnode he) h hvisit

end TreeLint.Syntax

namespace TreeLint.Rule

open TreeLint.Json TreeLint.Syntax

/-- The rule looks at functions. -/
theorem looksAt_guardClauses_iff {node : Value} :
    Rule.requireGuardClauses.looksAt node = true ↔ IsFunction node :=
  List.any_eq_true

/-- On a program with the shape the rule finds the conditionals around the bodies of functions. -/
theorem finds_guardClauses {program : Value} (h : Estree program) :
    Finds program .requireGuardClauses "requireGuardClause"
      fun _ function conditional => IsFunction function ∧ WrapsBody function conditional := by
  intro visit hvisit context found hrule hfound
  have hshape := h.of_mem_preorder hvisit
  rw [findings, hrule] at hfound
  split at hfound
  · next hlooks =>
    have hfunction := looksAt_guardClauses_iff.mp hlooks
    obtain ⟨conditional, hconditional, heq⟩ := bind_eq_ok_iff.mp hfound
    cases heq
    have hiff := @wholeBodyConditional_eq_some_iff visit.node hshape hfunction
    cases conditional with
    | none =>
      refine .inl ⟨rfl, fun target htarget => ?_⟩
      cases (hiff.mpr htarget.2).symm.trans hconditional
    | some conditional =>
      have hwraps := hiff.mp hconditional
      refine .inr ⟨conditional, rfl, fun other => ⟨fun hother => hother.2.unique hwraps, ?_⟩⟩
      rintro rfl
      exact ⟨hfunction, hwraps⟩
  · next hother =>
    cases hfound
    exact .inl ⟨rfl, fun target htarget => hother (looksAt_guardClauses_iff.mpr htarget.1)⟩

/-- The rule ends without a fault on a program with the shape. -/
theorem exists_run_guardClauses {options program text : Value} (debug : Bool) (bindings : Value)
    (hoptions : ∃ copied, copyOptions options = .ok copied)
    (htext : text = .null ∨ ∃ s, text = .str s) (h : Estree program) :
    ∃ ds, Engine.run ⟨[.requireGuardClauses], options, debug⟩ program text bindings = .ok ds := by
  obtain ⟨copied, hcopied⟩ := hoptions
  have hvisits : ∃ found, checkVisits
      (Engine.contexts ⟨[.requireGuardClauses], options, debug⟩ copied text bindings) program
      (preorder [] program) = .ok found := by
    rw [exists_checkVisits_iff_nodes]
    intro visit hvisit
    have hshape := h.of_mem_preorder hvisit
    rw [Engine.contexts, List.map_singleton, checkNode_singleton, reportsAt]
    split
    · next hlooks => exact exists_checkGuardClauses htext rfl hshape (looksAt_guardClauses_iff.mp hlooks)
    · exact ⟨[], rfl⟩
  obtain ⟨found, hfound⟩ := hvisits
  exact ⟨_, run_eq_ok_iff.mpr ⟨copied, _, found, hcopied, walk_of_isNode h.isNode, hfound, rfl⟩⟩

/-- What the rule about guard clauses says of a program with the shape of ESTree.  It ends without a fault,
and its diagnostics stand one for one for the functions of the program, however deep they are, whose whole
body is a conditional with one branch that is no guard; each is at that conditional. -/
theorem guardClauses_exact (options : Value) (debug : Bool) (program text bindings : Value)
    (hoptions : ∃ copied, copyOptions options = .ok copied)
    (htext : text = .null ∨ ∃ s, text = .str s) (hshape : Estree program) :
    ∃ ds reported, Engine.run ⟨[.requireGuardClauses], options, debug⟩ program text bindings = .ok ds ∧
      ExactFor program text .requireGuardClauses "requireGuardClause"
        (fun _ function conditional => IsFunction function ∧ WrapsBody function conditional)
        reported ds := by
  obtain ⟨ds, hrun⟩ := exists_run_guardClauses debug bindings hoptions htext hshape
  obtain ⟨reported, hexact⟩ := exactFor_of_finds (finds_guardClauses hshape) hrun
  exact ⟨ds, reported, hrun, hexact⟩

/-- `function f() { if (function () { if (!x) { return; } }) { } }`: the outer function is reported at its
conditional, and the function in the test, which has a guard, is not. -/
theorem guardClauses_exact_nested :
    let node (kind : String) (fields : Fields) : Value := .obj (("type", .str kind) :: fields)
    let block (statements : List Value) : Value := node "BlockStatement" [("body", .arr statements)]
    let guarding := node "IfStatement" [("test", node "UnaryExpression" [("operator", .str "!")]),
      ("consequent", block [node "ReturnStatement" []])]
    let inner := node "FunctionExpression" [("params", .arr []), ("body", block [guarding])]
    let wrapping := node "IfStatement" [("start", .int 15), ("end", .int 61), ("test", inner),
      ("consequent", block []), ("alternate", .null)]
    let outer := node "FunctionDeclaration" [("params", .arr []), ("body", block [wrapping])]
    let program := node "Program" [("body", .arr [outer])]
    Estree program ∧ ∃ ds reported,
      Engine.run ⟨[.requireGuardClauses], .null, false⟩ program .null .null = .ok ds ∧
      ExactFor program .null .requireGuardClauses "requireGuardClause"
        (fun _ function conditional => IsFunction function ∧ WrapsBody function conditional)
        reported ds ∧
      (⟨[⟨"body", some 0⟩], outer⟩, wrapping) ∈ reported ∧
      ∀ path target, (⟨path, inner⟩, target) ∉ reported := by
  intro node block guarding inner wrapping outer program
  have hshape : Estree program := by decide +kernel
  obtain ⟨ds, reported, hrun, hexact⟩ :=
    guardClauses_exact .null false program .null .null ⟨_, rfl⟩ (.inl rfl) hshape
  refine ⟨hshape, ds, reported, hrun, hexact, ?_, fun path target hmem => ?_⟩
  · have hedge : (⟨⟨"body", some 0⟩, outer⟩ : Edge) ∈ edges program := List.mem_cons_self
    have hreached : Reaches program [⟨"body", some 0⟩] outer := Reaches.root.child hedge
    have hwraps : WrapsBody outer wrapping :=
      ⟨⟨rfl, rfl, fun hboth => absurd hboth.1.1 (by decide)⟩, rfl, rfl⟩
    exact (hexact.verdicts _ _ _).mpr ⟨hreached, ⟨_, List.mem_cons_self, rfl⟩, hwraps⟩
  · obtain ⟨_, _, hwraps⟩ := (hexact.verdicts _ _ _).mp hmem
    have honly : Value.arr [guarding] = .arr [target] := hwraps.only
    cases honly
    exact hwraps.noGuard ⟨⟨rfl, rfl⟩, .block rfl rfl (.here (.inl rfl))⟩

end TreeLint.Rule
