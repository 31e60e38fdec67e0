/-
  Programs with the shape of ESTree.

  A table says what the fields hold that are read from the nodes of a program: lists of nodes, single nodes
  or nothing.  Declarators and the members of patterns are read whatever their kinds are, and so what is in
  them is part of the shape too.  The shape can be computed, and every test of the syntax gives an answer
  for a tree that has it.
-/
import TreeLint.Proofs.Declared
import TreeLint.Syntax.Function

set_option autoImplicit false

namespace TreeLint.Syntax

open TreeLint.Json

/-! ## The shape -/

/-- What the fields hold that are read from the nodes of a program. -/
def estreeShapes : ShapeTable :=
  [("Program", [("body", .many [])]),
   ("BlockStatement", [("body", .many [])]),
   ("ExpressionStatement", [("expression", .one [])]),
   ("ReturnStatement", [("argument", .one [])]),
   ("IfStatement", [("test", .one []), ("consequent", .one []), ("alternate", .one [])]),
   ("CatchClause", [("body", .one [])]),
   ("FunctionDeclaration", [("id", .one []), ("params", .many []), ("body", .one [])]),
   ("FunctionExpression", [("params", .many []), ("body", .one [])]),
   ("ArrowFunctionExpression", [("params", .many []), ("body", .one [])]),
   ("ClassDeclaration", [("id", .one [])]),
   ("VariableDeclaration", [("declarations", .many [])]),
   ("ExportNamedDeclaration", [("declaration", .one []), ("specifiers", .many [])]),
   ("ExportDefaultDeclaration", [("declaration", .one [])]),
   ("Identifier", [("name", .text)]),
   ("UnaryExpression", [("argument", .one [])]),
   ("CallExpression", [("arguments", .many [])]),
   ("SpreadElement", [("argument", .one [])]),
   ("AwaitExpression", [("argument", .one [])]),
   ("ChainExpression", [("expression", .one [])]),
   ("ParenthesizedExpression", [("expression", .one [])]),
   ("ObjectPattern", [("properties", .many [])]),
   ("ArrayPattern", [("elements", .slots)]),
   ("RestElement", [("argument", .one [])]),
   ("AssignmentPattern", [("left", .one [])])]

/-- The operator of a unary expression is a text or missing, and the name of a function or a class that is
declared is a text. -/
def hasPlainTexts (v : Value) : Bool :=
  (!isKind v "UnaryExpression" || (fieldOf v "operator").isNull ||
    (fieldOf v "operator").text?.isSome) &&
  (!(isKind v "FunctionDeclaration" || isKind v "ClassDeclaration") || (fieldOf v "id").isNull ||
    (fieldOf (fieldOf v "id") "name").text?.isSome)

/-- The items of a list. -/
def itemsOf : Value → List Value
  | .arr items => items
  | _ => []

/-- What is read from the items of a declaration of variables or of an object pattern, whatever the kinds
of the items are. -/
def itemParts (v : Value) : List Value :=
  if isKind v "VariableDeclaration" then
    (itemsOf (fieldOf v "declarations")).flatMap fun d => [fieldOf d "id", fieldOf d "init"]
  else if isKind v "ObjectPattern" then
    (itemsOf (fieldOf v "properties")).map fun m => fieldOf m (memberField m)
  else []

/-- The parts of a node that are read: its children, and what is in its items. -/
def partsOf (v : Value) : List Value :=
  (edges v).map Edge.child ++ itemParts v

/-- What is in an item of a field is smaller than the node. -/
theorem sizeOf_itemPart_lt {v item : Value} {name : String} (h : item ∈ itemsOf (fieldOf v name))
    (part : String) : sizeOf (fieldOf item part) < sizeOf v := by
  have hpart : sizeOf (fieldOf item part) ≤ sizeOf item := by
    cases item with
    | obj fields => exact Nat.le_of_lt (sizeOf_get_lt fields part)
    | _ => simp [fieldOf]
  cases v with
  | obj fields =>
    have hfield := sizeOf_get_lt fields name
    rw [fieldOf_obj] at h
    cases hvalue : Fields.get fields name with
    | arr items =>
      rw [hvalue] at h hfield
      have hitem : sizeOf item < sizeOf (Value.arr items) := sizeOf_lt_of_mem h
      omega
    | _ =>
      rw [hvalue] at h
      cases h
  | _ => cases h

theorem sizeOf_part_lt {v part : Value} (h : part ∈ partsOf v) : sizeOf part < sizeOf v := by
  rcases List.mem_append.mp h with h | h
  · obtain ⟨e, he, rfl⟩ := List.mem_map.mp h
    exact sizeOf_child_lt he
  · unfold itemParts at h
    split at h
    · obtain ⟨d, hd, h⟩ := List.mem_flatMap.mp h
      rcases List.mem_cons.mp h with rfl | h
      · exact sizeOf_itemPart_lt hd "id"
      · obtain rfl := List.mem_singleton.mp h
        exact sizeOf_itemPart_lt hd "init"
    · split at h
      · obtain ⟨m, hm, rfl⟩ := List.mem_map.mp h
        exact sizeOf_itemPart_lt hm _
      · cases h

/-- The value is a tree with the shape of ESTree: each node holds what is read from it, and has a span that
is missing or made of whole numbers. -/
def isEstree (v : Value) : Bool :=
  hasShape estreeShapes v && hasPlainTexts v &&
    (partsOf v).attach.all fun part => part.1.isNull || isEstree part.1
termination_by sizeOf v
decreasing_by exact sizeOf_part_lt part.2

theorem isEstree_iff {v : Value} :
    isEstree v = true ↔ hasShape estreeShapes v = true ∧ hasPlainTexts v = true ∧
      ∀ part ∈ partsOf v, OrAbsent (fun w => isEstree w = true) part := by
  rw [isEstree, Bool.and_eq_true, Bool.and_eq_true, List.all_eq_true, and_assoc]
  simp only [Bool.or_eq_true, isNull_iff, List.mem_attach, forall_const, Subtype.forall]
  rfl

/-- The value is a tree with the shape of ESTree. -/
abbrev Estree (v : Value) : Prop := isEstree v = true

theorem shapedBy_estree : ShapedBy estreeShapes Estree where
  here h := (isEstree_iff.mp h).1
  child h e he := by
    have hpart := (isEstree_iff.mp h).2.2 e.child (List.mem_append_left _ (List.mem_map_of_mem he))
    refine hpart.resolve_left fun hnull => ?_
    have hnode := isNode_of_mem_edges he
    rw [hnull] at hnode
    cases hnode

namespace Estree

variable {v : Value}

/-- What is in the items of a node is absent or has the shape. -/
theorem itemPart (h : Estree v) {part : Value} (hpart : part ∈ itemParts v) : OrAbsent Estree part :=
  (isEstree_iff.mp h).2.2 part (List.mem_append_right _ hpart)

/-- A field for one node. -/
theorem one (h : Estree v) {kind : String} (hkind : isKind v kind = true) (name : String)
    (hshape : estreeShapes.Promises kind name (.one [])) : OrAbsent Estree (fieldOf v name) :=
  (shapedBy_estree.one h hkind name [] hshape).imp And.left

/-- A field for nodes. -/
theorem many (h : Estree v) {kind : String} (hkind : isKind v kind = true) (name : String)
    (hshape : estreeShapes.Promises kind name (.many [])) : ListOf Estree (fieldOf v name) :=
  (shapedBy_estree.many h hkind name [] hshape).imp fun _ _ _ _ hitem => hitem.1

theorem isNode (h : Estree v) : isNode v = true :=
  shapedBy_estree.isNode h

theorem operator (h : Estree v) (hkind : isKind v "UnaryExpression" = true) :
    (fieldOf v "operator").isKey = true := by
  have hplain := (isEstree_iff.mp h).2.1
  rw [hasPlainTexts, hkind, Bool.not_true, Bool.false_or] at hplain
  cases hvalue : fieldOf v "operator" with
  | arr | obj | link => simp [hvalue, Value.isNull, Value.text?] at hplain
  | _ => rfl

theorem bound (h : Estree v)
    (hkind : isKind v "FunctionDeclaration" = true ∨ isKind v "ClassDeclaration" = true) :
    OrAbsent (fun id => ∃ fields s, id = .obj fields ∧ Fields.get fields "name" = .str s)
      (fieldOf v "id") := by
  have hplain := (Bool.and_eq_true_iff.mp (isEstree_iff.mp h).2.1).2
  rw [Bool.or_eq_true _ _ |>.mpr hkind, Bool.not_true, Bool.false_or, Bool.or_eq_true,
    isNull_iff] at hplain
  refine hplain.imp_right fun hname => ?_
  cases hid : fieldOf v "id" with
  | obj fields =>
    rw [hid, fieldOf_obj] at hname
    cases hvalue : Fields.get fields "name" with
    | str s => exact ⟨fields, s, rfl, hvalue⟩
    | _ =>
      rw [hvalue] at hname
      cases hname
  | _ =>
    rw [hid] at hname
    cases hname

theorem declarators (h : Estree v) (hkind : isKind v "VariableDeclaration" = true) :
    ListOf (fun d => Syntax.isNode d = true ∧ OrAbsent Estree (fieldOf d "id") ∧
      OrAbsent Estree (fieldOf d "init")) (fieldOf v "declarations") := by
  refine (h.many hkind "declarations" (by decide)).imp fun items hitems d hd hshape => ?_
  have hpart : ∀ part ∈ [fieldOf d "id", fieldOf d "init"], OrAbsent Estree part := by
    intro part hpart
    apply h.itemPart
    rw [itemParts, if_pos hkind, hitems]
    exact List.mem_flatMap.mpr ⟨d, hd, hpart⟩
  exact ⟨hshape.isNode, hpart _ (by simp), hpart _ (by simp)⟩

theorem members (h : Estree v) (hkind : isKind v "ObjectPattern" = true) :
    ListOf (fun m => Syntax.isNode m = true ∧ OrAbsent Estree (fieldOf m (memberField m)))
      (fieldOf v "properties") := by
  refine (h.many hkind "properties" (by decide)).imp fun items hitems m hm hshape => ?_
  refine ⟨hshape.isNode, h.itemPart ?_⟩
  have hnot : ¬ isKind v "VariableDeclaration" = true := fun hvariable =>
    absurd (isKind_unique hkind hvariable) (by decide)
  rw [itemParts, if_neg hnot, if_pos hkind, hitems]
  exact List.mem_map_of_mem hm

end Estree

/-- Export statements and declarations can be read from trees with the shape of ESTree. -/
theorem exportReading_estree : ExportReading Estree := by
  constructor
  case isNode => exact Estree.isNode
  case hasPlainSpan => exact shapedBy_estree.hasPlainSpan
  case child => exact shapedBy_estree.child
  case one =>
    intro v h kind hkind name hread
    have hpromised : ∀ entry ∈ exportParts, estreeShapes.Promises entry.1 entry.2 (.one []) := by
      decide
    exact h.one hkind name (hpromised _ hread)
  case name => exact fun h hkind => shapedBy_estree.text h hkind "name" (by decide)
  case operator => exact Estree.operator
  case bound => exact Estree.bound
  case specifiers =>
    intro v h hkind
    exact (h.many hkind "specifiers" (by decide)).imp fun _ _ _ _ hitem => hitem.isNode
  case declarators => exact Estree.declarators
  case members => exact Estree.members
  case elements => exact fun h hkind => shapedBy_estree.slots h hkind "elements" (by decide)

/-! ## Lists -/

/-- A list that may be absent is read as a list. -/
theorem ListOf.orEmpty {S : Value → Prop} {v : Value} (h : ListOf S v) :
    ∃ items, v.orEmpty = .arr items ∧ ∀ item ∈ items, S item := by
  rcases h with rfl | ⟨items, rfl, hall⟩
  · exact ⟨[], rfl, by simp⟩
  · refine ⟨items, ?_, hall⟩
    cases items <;> rfl

theorem gives_only (items : List Value) :
    Gives (Value.arr items).only fun found => ∀ item ∈ found, item ∈ items := by
  match items with
  | [] => exact .ok (by simp)
  | [item] => exact .ok (by simp)
  | _ :: _ :: _ => exact .ok (by simp)

theorem gives_last {items : List Value} (h : items ≠ []) :
    Gives (Value.arr items).last fun item => item ∈ items := by
  have hlength : 0 < items.length := List.length_pos_iff.mpr h
  have hplace : Value.place? items.length (-1) = some (items.length - 1) := by
    rw [Value.place?, if_neg (by decide), if_pos (by omega)]
    congr 1
    omega
  have hitem : items[items.length - 1]? = some (items[items.length - 1]) :=
    List.getElem?_eq_getElem (by omega)
  refine ⟨items[items.length - 1], ?_, List.getElem_mem _⟩
  simp only [Value.last, Value.item, Value.elements, ok_bind, hplace, Option.bind_some, hitem, pure_eq_ok]

/-! ## Statements -/

section Statements

variable {v : Value}

/-- The statements of a block. -/
theorem Estree.block (h : Estree v) (hkind : isKind v "BlockStatement" = true) :
    ∃ items, (fieldOf v "body").orEmpty = .arr items ∧ ∀ item ∈ items, Estree item :=
  (h.many hkind "body" (by decide)).orEmpty

/-- Whether a statement leaves the function can always be said. -/
theorem exists_exitsEarly (h : OrAbsent Estree v) : ∃ b, exitsEarly v = .ok b := by
  fun_induction exitsEarly v with
  | case1 | case3 | case5 | case7 => exact ⟨_, rfl⟩
  | case2 fields fault hfault =>
    obtain ⟨_, kind, heq, hkind⟩ := isNode_iff.mp (h.resolve_left (by simp)).isNode
    cases heq
    rw [hkind] at hfault
    cases hfault
  | case4 fields hno hblock statement honly ih =>
    have hshape : Estree (.obj fields) := h.resolve_left (by simp)
    obtain ⟨items, hitems, hall⟩ := hshape.block hblock
    obtain ⟨found, hfound, hmem⟩ := gives_only items
    rw [← hitems, fieldOf_obj, honly] at hfound
    cases hfound
    exact ih (.inr (hall statement (hmem statement rfl)))
  | case6 fields hno hblock fault honly =>
    have hshape : Estree (.obj fields) := h.resolve_left (by simp)
    obtain ⟨items, hitems, _⟩ := hshape.block hblock
    obtain ⟨found, hfound, _⟩ := gives_only items
    rw [← hitems, fieldOf_obj, honly] at hfound
    cases hfound
  | case8 v hnull hobj =>
    obtain ⟨fields, _, rfl, _⟩ := isNode_iff.mp (h.resolve_left hnull).isNode
    exact (hobj fields rfl).elim

theorem exists_isNegation (h : OrAbsent Estree v) : ∃ b, isNegation v = .ok b := by
  rcases h with rfl | h
  · exact ⟨false, rfl⟩
  · obtain ⟨fields, _, rfl, _⟩ := isNode_iff.mp h.isNode
    exact ⟨_, rfl⟩

/-- The call that a statement consists of has the shape. -/
theorem gives_statementCall (h : Estree v) :
    Gives (statementCall v) fun found => ∀ call ∈ found, Estree call ∧
      isKind call "CallExpression" = true := by
  have hlayers : ∀ w kind field, Estree w → isKind w kind = true →
      callLayers.lookup kind = some field → OrAbsent Estree (fieldOf w field) := by
    intro w kind field hw hkind hlayer
    have hpromised : ∀ layer ∈ callLayers, estreeShapes.Promises layer.1 layer.2 (.one []) := by decide
    exact hw.one hkind field (hpromised _ (mem_of_layer hlayer))
  -- What is read from the statement, by its kind.
  have hcall : ∀ inner, OrAbsent Estree inner → Gives (do
      let call ← unwrap callLayers inner
      if isKind call "CallExpression" then return some call else return none)
      fun found => ∀ call ∈ found, Estree call ∧ isKind call "CallExpression" = true := by
    intro inner hinner
    obtain ⟨call, hcall, hend⟩ := exists_unwrap (fun _ => Estree.isNode) hlayers hinner
    rw [hcall, ok_bind]
    refine .ite (fun hkind => .ok ?_) (fun _ => .ok (by simp))
    rintro _ ⟨rfl⟩
    refine ⟨(hend.resolve_left ?_).1, hkind⟩
    rintro rfl
    cases hkind
  obtain ⟨fields, _, rfl, _⟩ := isNode_iff.mp h.isNode
  simp only [statementCall, isText_type]
  by_cases hexpression : isKind (.obj fields) "ExpressionStatement" = true
  · rw [if_pos hexpression]
    exact hcall _ (h.one hexpression "expression" (by decide))
  · rw [if_neg hexpression]
    by_cases hreturn : isKind (.obj fields) "ReturnStatement" = true
    · rw [if_pos hreturn]
      exact hcall _ (h.one hreturn "argument" (by decide))
    · rw [if_neg hreturn]
      exact .ok (by simp)

end Statements

/-! ## Functions -/

theorem only_eq_some_iff {v : Value} {fields : Fields} :
    v.only = .ok (some (.obj fields)) ↔ v = .arr [.obj fields] := by
  cases v with
  | arr items =>
    cases items with
    | nil => simp [Value.only]
    | cons first rest => cases rest <;> simp [Value.only]
  | obj inner =>
    cases inner with
    | nil => simp [Value.only]
    | cons first rest => cases rest <;> simp [Value.only]
  | str text => by_cases hone : text.length = 1 <;> simp [Value.only, hone]
  | _ => simp [Value.only]

theorem only_orEmpty_eq_some_iff {v : Value} {fields : Fields} :
    v.orEmpty.only = .ok (some (.obj fields)) ↔ v = .arr [.obj fields] := by
  rw [only_eq_some_iff, Value.orEmpty]
  split
  · rfl
  · next hempty =>
    refine iff_of_false (by simp) ?_
    rintro rfl
    exact hempty rfl

/-- The only statement of a block is the one that is found in the function. -/
theorem soleStatement_eq_some_iff {function : Value} {fields : Fields} :
    soleStatement function = .ok (some (.obj fields)) ↔
      isKind (fieldOf function "body") "BlockStatement" = true ∧
        fieldOf (fieldOf function "body") "body" = .arr [.obj fields] := by
  cases function with
  | obj outer =>
    rw [soleStatement, bodyStatements, Value.get, ok_bind, fieldOf_obj]
    cases Fields.get outer "body" with
    | obj block =>
      simp only [isText_type, fieldOf_obj]
      by_cases hblock : isKind (.obj block) "BlockStatement" = true
      · simp only [hblock, if_true, pure_eq_ok, ok_bind, true_and]
        exact only_orEmpty_eq_some_iff
      · simp [hblock]
    | _ => simp [isKind]
  | _ => simp [soleStatement, bodyStatements, Value.get, fieldOf, isKind]

section Functions

variable {function : Value}

/-- The value is a function. -/
def IsFunction (v : Value) : Prop :=
  ∃ kind ∈ functionKinds, isKind v kind = true

theorem gives_bodyStatements (h : Estree function) (hfunction : IsFunction function) :
    Gives (bodyStatements function) fun found => ∀ statements ∈ found,
      ∃ items, statements = .arr items ∧ ∀ item ∈ items, Estree item := by
  have hpromised : ∀ kind ∈ functionKinds, estreeShapes.Promises kind "body" (.one []) := by decide
  obtain ⟨kind, hmem, hkind⟩ := hfunction
  have hbody := h.one hkind "body" (hpromised kind hmem)
  obtain ⟨fields, _, rfl, _⟩ := isNode_iff.mp h.isNode
  rw [fieldOf_obj] at hbody
  rw [bodyStatements, Value.get, ok_bind]
  rcases hbody with hnull | hblock
  · rw [hnull]
    exact .ok (by simp)
  · obtain ⟨block, _, heq, _⟩ := isNode_iff.mp hblock.isNode
    rw [heq] at hblock ⊢
    dsimp only
    refine .ite (fun hkind => .ok ?_) (fun _ => .ok (by simp))
    rintro _ ⟨rfl⟩
    exact hblock.block hkind

theorem gives_soleStatement (h : Estree function) (hfunction : IsFunction function) :
    Gives (soleStatement function) fun found => ∀ statement ∈ found, Estree statement := by
  refine (gives_bodyStatements h hfunction).bind fun found hfound => ?_
  cases found with
  | none => exact .ok (by simp)
  | some statements =>
    obtain ⟨items, rfl, hall⟩ := hfound statements rfl
    obtain ⟨sole, hsole, hmem⟩ := gives_only items
    exact ⟨sole, hsole, fun statement hstatement => hall _ (hmem statement hstatement)⟩

/-- The conditional that is a function's whole body has the shape. -/
theorem gives_wholeBodyConditional (h : Estree function) (hfunction : IsFunction function) :
    Gives (wholeBodyConditional function) fun found => ∀ conditional ∈ found, Estree conditional := by
  refine (gives_soleStatement h hfunction).bind fun found hfound => ?_
  cases found with
  | none => exact .ok (by simp)
  | some statement =>
    have hshape : Estree statement := hfound statement rfl
    obtain ⟨fields, _, rfl, _⟩ := isNode_iff.mp hshape.isNode
    have hsome : Gives (.ok (some (.obj fields))) fun found => ∀ conditional ∈ found,
        Estree conditional := .ok hfound
    simp only [Value.get, ok_bind, pure_eq_ok, isText_type]
    refine .ite (fun _ => .ok (by simp)) fun hkind => .ite (fun _ => .ok (by simp)) fun _ => ?_
    have hkind : isKind (.obj fields) "IfStatement" = true := by simpa using hkind
    have htest := exists_isNegation (hshape.one hkind "test" (by decide))
    have hexits := exists_exitsEarly (hshape.one hkind "consequent" (by decide))
    refine (Gives.of_exists_ok htest).bind fun negated _ => .ite (fun _ => ?_) fun _ => hsome
    refine (Gives.of_exists_ok hexits).bind fun leaves _ => ?_
    exact .ite (fun _ => .ok (by simp)) fun _ => hsome

/-! ## Forwarding -/

theorem exists_isIdentifierNamed {v : Value} (h : OrAbsent Estree v) (name : Value) :
    ∃ b, isIdentifierNamed v name = .ok b := by
  have hdecides := isIdentifier_decides (exportReading_estree.optional h)
  rw [isIdentifierNamed]
  rcases hdecides with ⟨hyes, hkind⟩ | ⟨hno, _⟩
  · obtain ⟨fields, _, rfl, _⟩ := isNode_iff.mp (isNode_of_isKind hkind)
    rw [hyes, ok_bind, if_pos rfl]
    split
    · exact ⟨true, rfl⟩
    · exact ⟨_, rfl⟩
  · exact ⟨false, by rw [hno]; rfl⟩

/-- The name of an identifier is there. -/
theorem exists_require_name {v : Value} (h : Estree v) (hkind : isKind v "Identifier" = true) :
    ∃ name, v.require "name" = .ok name := by
  obtain ⟨name, hname⟩ := exportReading_estree.name h hkind
  obtain ⟨fields, _, rfl, _⟩ := isNode_iff.mp h.isNode
  rw [fieldOf_obj] at hname
  exact ⟨.str name, by rw [Value.require, lookup_of_get_eq hname (by simp)]⟩

/-- Parameters are read one after the other, and each of them can be. -/
theorem exists_readParameters {written : List Value} (h : ∀ p ∈ written, Estree p)
    (known : Parameters) : ∃ found, readParameters known written = .ok found := by
  induction written generalizing known with
  | nil => exact ⟨some known, rfl⟩
  | cons parameter others ih =>
    have hothers : ∀ next, Gives (readParameters next others) fun _ => True := fun next =>
      .of_exists_ok (ih (fun p hp => h p (List.mem_cons_of_mem _ hp)) next)
    have hparameter := h parameter List.mem_cons_self
    suffices hgives : Gives (readParameters known (parameter :: others)) fun _ => True from
      hgives.exists_ok
    have hdecides := isIdentifier_decides (exportReading_estree.optional (.inr hparameter))
    rw [readParameters]
    refine .ite (fun _ => .ok trivial) fun _ => ?_
    rcases hdecides with ⟨hyes, hkind⟩ | ⟨hno, _⟩
    · rw [hyes, ok_bind, if_pos rfl]
      exact (Gives.of_exists_ok (exists_require_name hparameter hkind)).bind fun name _ => hothers _
    · rw [hno, ok_bind, if_neg Bool.false_ne_true]
      obtain ⟨fields, _, rfl, _⟩ := isNode_iff.mp hparameter.isNode
      simp only [Value.get, ok_bind, isText_type]
      refine .ite (fun hrest => ?_) fun _ => .ok trivial
      have hargument := hparameter.one hrest "argument" (by decide)
      rw [fieldOf_obj] at hargument
      rcases isIdentifier_decides (exportReading_estree.optional hargument) with
        ⟨hyes, hkind⟩ | ⟨hno, _⟩
      · rw [hyes, ok_bind, if_pos rfl]
        have hshape : Estree (Fields.get fields "argument") := by
          refine hargument.resolve_left fun hnull => ?_
          rw [hnull] at hkind
          cases hkind
        exact (Gives.of_exists_ok (exists_require_name hshape hkind)).bind fun name _ => hothers _
      · rw [hno, ok_bind, if_neg Bool.false_ne_true]
        exact .ok trivial

theorem exists_passesNames (names : List Value) {arguments : List Value}
    (h : ∀ a ∈ arguments, Estree a) : ∃ b, passesNames names arguments = .ok b := by
  induction names generalizing arguments with
  | nil =>
    cases arguments with
    | nil => exact ⟨true, rfl⟩
    | cons => exact ⟨true, rfl⟩
  | cons name names ih =>
    cases arguments with
    | nil => exact ⟨true, rfl⟩
    | cons argument arguments =>
      obtain ⟨named, hnamed⟩ := exists_isIdentifierNamed (.inr (h argument List.mem_cons_self)) name
      rw [passesNames, hnamed, ok_bind]
      cases named with
      | true => exact ih fun a ha => h a (List.mem_cons_of_mem _ ha)
      | false => exact ⟨false, rfl⟩

theorem exists_passesParameters (parameters : Parameters) {arguments : List Value}
    (h : ∀ a ∈ arguments, Estree a) : ∃ b, passesParameters parameters (.arr arguments) = .ok b := by
  suffices hgives : Gives (passesParameters parameters (.arr arguments)) fun _ => True from
    hgives.exists_ok
  rw [passesParameters, Value.size, ok_bind]
  refine .ite (fun _ => .ok trivial) fun hcount => ?_
  refine (Gives.of_exists_ok (exists_passesNames parameters.names h)).bind fun passed _ => ?_
  refine .ite (fun _ => .ite (fun _ => .ok trivial) fun hrest => ?_) fun _ => .ok trivial
  -- There is an argument for the rest, so that there is a last one.
  have hsome : arguments ≠ [] := by
    rintro rfl
    rw [if_neg hrest] at hcount
    exact hcount (by simp)
  refine (gives_last hsome).bind fun last hlast => ?_
  have hshape := h last hlast
  obtain ⟨fields, _, rfl, _⟩ := isNode_iff.mp hshape.isNode
  simp only [Value.get, ok_bind, isText_type]
  refine .ite (fun hspread => .of_exists_ok ?_) fun _ => .ok trivial
  exact exists_isIdentifierNamed (hshape.one hspread "argument" (by decide)) _

/-- Whether a function only passes its parameters on can always be said. -/
theorem exists_forwardsParameters (h : Estree function) (hfunction : IsFunction function) :
    ∃ b, forwardsParameters function = .ok b := by
  suffices hgives : Gives (forwardsParameters function) fun _ => True from hgives.exists_ok
  refine (gives_soleStatement h hfunction).bind fun found hfound => ?_
  cases found with
  | none => exact .ok trivial
  | some statement =>
    refine (gives_statementCall (hfound statement rfl)).bind fun found hfound => ?_
    cases found with
    | none => exact .ok trivial
    | some call =>
      obtain ⟨hcall, hkind⟩ := hfound call rfl
      obtain ⟨arguments, harguments, hall⟩ := (hcall.many hkind "arguments" (by decide)).orEmpty
      have hpromised : ∀ kind ∈ functionKinds, estreeShapes.Promises kind "params" (.many []) := by
        decide
      obtain ⟨kind, hmem, hkind⟩ := hfunction
      obtain ⟨written, hwritten, hparams⟩ := (h.many hkind "params" (hpromised kind hmem)).orEmpty
      obtain ⟨fields, _, rfl, _⟩ := isNode_iff.mp h.isNode
      obtain ⟨content, _, rfl, _⟩ := isNode_iff.mp hcall.isNode
      rw [fieldOf_obj] at harguments hwritten
      simp only [Value.get, ok_bind, harguments, hwritten, Value.elements]
      refine (Gives.of_exists_ok (exists_readParameters hparams _)).bind fun found _ => ?_
      cases found with
      | none => exact .ok trivial
      | some parameters => exact .of_exists_ok (exists_passesParameters parameters hall)

end Functions

end TreeLint.Syntax
