/-
  What the tests for export statements decide.

  Each shape of a statement is stated once as a property of its fields.  On trees that hold what is read
  from export statements no test ends with a fault, and each test says whether its property holds.
-/
import TreeLint.Proofs.Span
import TreeLint.Syntax.Export

set_option autoImplicit false

namespace TreeLint.Syntax

open TreeLint.Json

/-- What the fields hold that are read from export statements and declarations. -/
def exportShapes : ShapeTable :=
  [("ExportNamedDeclaration", [("declaration", .one []), ("specifiers", .many [])]),
   ("ExportDefaultDeclaration", [("declaration", .one [])]),
   ("FunctionDeclaration", [("id", .one ["Identifier"])]),
   ("ClassDeclaration", [("id", .one ["Identifier"])]),
   ("VariableDeclaration", [("declarations", .many ["VariableDeclarator"])]),
   ("VariableDeclarator", [("id", .one []), ("init", .one [])]),
   ("Identifier", [("name", .text)]),
   ("ObjectPattern", [("properties", .many ["Property", "RestElement"])]),
   ("ArrayPattern", [("elements", .slots)]),
   ("Property", [("value", .one [])]),
   ("RestElement", [("argument", .one [])]),
   ("AssignmentPattern", [("left", .one [])]),
   ("ChainExpression", [("expression", .one [])]),
   ("ParenthesizedExpression", [("expression", .one [])]),
   ("UnaryExpression", [("operator", .text), ("argument", .one [])])]

/-- The value is a tree with the fields that the rule about exports reads. -/
abbrev ExportShaped (v : Value) : Prop := WellShaped exportShapes v

/-! ## What is read -/

/-- The fields for one node that are read from export statements and declarations, with the kinds of the
nodes that they are read from. -/
def exportParts : List (String × String) :=
  [("ExportNamedDeclaration", "declaration"), ("ExportDefaultDeclaration", "declaration"),
   ("RestElement", "argument"), ("AssignmentPattern", "left"), ("ChainExpression", "expression"),
   ("ParenthesizedExpression", "expression"), ("UnaryExpression", "argument")]

/-- The field of a member of an object pattern that holds the pattern inside it. -/
def memberField (member : Value) : String :=
  if isKind member "RestElement" then "argument" else "value"

/-- Export statements and declarations can be read from nodes with the property.  The items of the lists
are read whatever their kinds are. -/
structure ExportReading (S : Value → Prop) : Prop where
  /-- They are nodes. -/
  isNode {v : Value} (h : S v) : isNode v = true
  /-- Their spans are missing or made of whole numbers. -/
  hasPlainSpan {v : Value} (h : S v) : HasPlainSpan v
  /-- Their children have the property. -/
  child {v : Value} (h : S v) {e : Edge} (he : e ∈ edges v) : S e.child
  /-- So have the nodes in the fields that are read. -/
  one {v : Value} (h : S v) {kind : String} (hkind : isKind v kind = true) (name : String)
    (hread : (kind, name) ∈ exportParts) : OrAbsent S (fieldOf v name)
  /-- An identifier has a text for its name. -/
  name {v : Value} (h : S v) (hkind : isKind v "Identifier" = true) : ∃ s, fieldOf v "name" = .str s
  /-- The operator of a unary expression can be looked up. -/
  operator {v : Value} (h : S v) (hkind : isKind v "UnaryExpression" = true) :
    (fieldOf v "operator").isKey = true
  /-- The name of a function or a class is a text. -/
  bound {v : Value} (h : S v)
    (hkind : isKind v "FunctionDeclaration" = true ∨ isKind v "ClassDeclaration" = true) :
    OrAbsent (fun id => ∃ fields s, id = .obj fields ∧ Fields.get fields "name" = .str s)
      (fieldOf v "id")
  /-- What an export lists are nodes. -/
  specifiers {v : Value} (h : S v) (hkind : isKind v "ExportNamedDeclaration" = true) :
    ListOf (fun specifier => Syntax.isNode specifier = true) (fieldOf v "specifiers")
  /-- The variables that are declared are patterns with an initial value. -/
  declarators {v : Value} (h : S v) (hkind : isKind v "VariableDeclaration" = true) :
    ListOf (fun d => Syntax.isNode d = true ∧ OrAbsent S (fieldOf d "id") ∧
      OrAbsent S (fieldOf d "init")) (fieldOf v "declarations")
  /-- The members of an object pattern hold patterns. -/
  members {v : Value} (h : S v) (hkind : isKind v "ObjectPattern" = true) :
    ListOf (fun m => Syntax.isNode m = true ∧ OrAbsent S (fieldOf m (memberField m)))
      (fieldOf v "properties")
  /-- The elements of an array pattern are patterns, with gaps. -/
  elements {v : Value} (h : S v) (hkind : isKind v "ArrayPattern" = true) :
    ListOf (OrAbsent S) (fieldOf v "elements")

namespace ExportShaped

variable {v : Value} (h : ExportShaped v)

include h

theorem bound (hkind : isKind v "FunctionDeclaration" = true ∨ isKind v "ClassDeclaration" = true) :
    OrAbsent (fun id => ∃ fields s, id = .obj fields ∧ Fields.get fields "name" = .str s)
      (fieldOf v "id") := by
  have T := shapedBy_wellShaped exportShapes
  have hid : OrAbsent (fun id => ExportShaped id ∧ isOfKinds ["Identifier"] id = true)
      (fieldOf v "id") := by
    rcases hkind with hkind | hkind
    · exact T.one h hkind "id" ["Identifier"] (by decide)
    · exact T.one h hkind "id" ["Identifier"] (by decide)
  refine hid.imp fun ⟨hshaped, hidentifier⟩ => ?_
  obtain ⟨_, hmem, hname⟩ := exists_kind_of_isOfKinds rfl hidentifier
  obtain rfl := List.mem_singleton.mp hmem
  obtain ⟨s, hs⟩ := T.text hshaped hname "name" (by decide)
  obtain ⟨fields, _, hfields, _⟩ := T.exists_fields hshaped
  exact ⟨fields, s, hfields, by rwa [hfields, fieldOf_obj] at hs⟩

theorem declarators (hkind : isKind v "VariableDeclaration" = true) :
    ListOf (fun d => isNode d = true ∧ OrAbsent ExportShaped (fieldOf d "id") ∧
      OrAbsent ExportShaped (fieldOf d "init")) (fieldOf v "declarations") := by
  have T := shapedBy_wellShaped exportShapes
  refine (T.many h hkind "declarations" ["VariableDeclarator"] (by decide)).imp ?_
  rintro _ _ d _ ⟨hd, hdeclarator⟩
  obtain ⟨_, hmem, hkind⟩ := exists_kind_of_isOfKinds rfl hdeclarator
  obtain rfl := List.mem_singleton.mp hmem
  exact ⟨T.isNode hd, (T.one hd hkind "id" [] (by decide)).imp And.left,
    (T.one hd hkind "init" [] (by decide)).imp And.left⟩

theorem members (hkind : isKind v "ObjectPattern" = true) :
    ListOf (fun m => isNode m = true ∧ OrAbsent ExportShaped (fieldOf m (memberField m)))
      (fieldOf v "properties") := by
  have T := shapedBy_wellShaped exportShapes
  refine (T.many h hkind "properties" ["Property", "RestElement"] (by decide)).imp ?_
  rintro _ _ m _ ⟨hm, hmember⟩
  refine ⟨T.isNode hm, ?_⟩
  obtain ⟨_, hmem, hkind⟩ := exists_kind_of_isOfKinds rfl hmember
  rcases List.mem_cons.mp hmem with rfl | hmem
  · have hnot : ¬ isKind m "RestElement" = true := fun hrest =>
      absurd (isKind_unique hkind hrest) (by decide)
    rw [memberField, if_neg hnot]
    exact (T.one hm hkind "value" [] (by decide)).imp And.left
  · obtain rfl := List.mem_singleton.mp hmem
    rw [memberField, if_pos hkind]
    exact (T.one hm hkind "argument" [] (by decide)).imp And.left

end ExportShaped

/-- Trees with the promised fields can be read. -/
theorem exportReading_exportShaped : ExportReading ExportShaped := by
  have T := shapedBy_wellShaped exportShapes
  constructor
  case isNode => exact T.isNode
  case hasPlainSpan => exact T.hasPlainSpan
  case child => exact T.child
  case one =>
    intro v h kind hkind name hread
    have hpromised : ∀ entry ∈ exportParts, exportShapes.Promises entry.1 entry.2 (.one []) := by
      decide
    exact (T.one h hkind name [] (hpromised _ hread)).imp And.left
  case name => exact fun h hkind => T.text h hkind "name" (by decide)
  case operator =>
    intro v h hkind
    obtain ⟨operator, hoperator⟩ := T.text h hkind "operator" (by decide)
    rw [hoperator]
    rfl
  case bound => exact ExportShaped.bound
  case specifiers =>
    intro v h hkind
    exact (T.many h hkind "specifiers" [] (by decide)).imp fun _ _ _ _ hitem => T.isNode hitem.1
  case declarators => exact ExportShaped.declarators
  case members => exact ExportShaped.members
  case elements => exact fun h hkind => T.slots h hkind "elements" (by decide)

/-! ## Shapes of statements -/

/-- The statement is an export. -/
def ExportStatement (s : Value) : Prop :=
  isKind s "ExportAllDeclaration" = true ∨ isKind s "ExportDefaultDeclaration" = true ∨
    isKind s "ExportNamedDeclaration" = true

/-- `export { a, b }`: a list of names, with neither a declaration nor a source. -/
structure LocalList (s : Value) : Prop where
  /-- It is a named export. -/
  kind : isKind s "ExportNamedDeclaration" = true
  /-- It declares nothing. -/
  declaration : fieldOf s "declaration" = .null
  /-- It has no source. -/
  source : fieldOf s "source" = .null
  /-- It lists something. -/
  specifiers : ∃ first rest, fieldOf s "specifiers" = .arr (first :: rest)

/-- The node is marked as one about types. -/
def MarkedAsType (v : Value) : Prop :=
  fieldOf v "exportKind" = .str "type"

/-- The statement exports types only: it is marked so, or it lists names and each of them is. -/
def TypesOnly (s : Value) : Prop :=
  (isKind s "ExportAllDeclaration" = true ∧ MarkedAsType s) ∨
    (isKind s "ExportNamedDeclaration" = true ∧
      (MarkedAsType s ∨ ∃ first rest, fieldOf s "specifiers" = .arr (first :: rest) ∧
        ∀ specifier ∈ first :: rest, MarkedAsType specifier))

/-- The expression is a name or a member, perhaps in parentheses or optional chains. -/
inductive AliasExpression : Value → Prop
  /-- A name. -/
  | name {v : Value} (kind : isKind v "Identifier" = true) : AliasExpression v
  /-- A member of an object. -/
  | member {v : Value} (kind : isKind v "MemberExpression" = true) : AliasExpression v
  /-- An optional chain around one. -/
  | chain {v : Value} (kind : isKind v "ChainExpression" = true)
      (inner : AliasExpression (fieldOf v "expression")) : AliasExpression v
  /-- Parentheses around one. -/
  | parentheses {v : Value} (kind : isKind v "ParenthesizedExpression" = true)
      (inner : AliasExpression (fieldOf v "expression")) : AliasExpression v

/-- The statement is a named export of a variable declaration. -/
def VariableExport (s : Value) : Prop :=
  isKind s "ExportNamedDeclaration" = true ∧
    isKind (fieldOf s "declaration") "VariableDeclaration" = true

/-- `export const x = y`: some declarator starts out as an alias. -/
def AliasExport (s : Value) : Prop :=
  VariableExport s ∧ ∃ declarators,
    fieldOf (fieldOf s "declaration") "declarations" = .arr declarators ∧
      ∃ declarator ∈ declarators, AliasExpression (fieldOf declarator "init")

/-- `export default name`. -/
def DefaultOf (s : Value) (name : String) : Prop :=
  isKind s "ExportDefaultDeclaration" = true ∧
    isKind (fieldOf s "declaration") "Identifier" = true ∧
      fieldOf (fieldOf s "declaration") "name" = .str name

/-- A list of names declares no variables. -/
theorem LocalList.not_variableExport {s : Value} (h : LocalList s) : ¬ VariableExport s := by
  rintro ⟨_, hdeclaration⟩
  rw [h.declaration] at hdeclaration
  cases hdeclaration

/-- A named export is no default export. -/
theorem not_defaultOf_of_named {s : Value} {name : String}
    (h : isKind s "ExportNamedDeclaration" = true) : ¬ DefaultOf s name := by
  rintro ⟨hdefault, _⟩
  exact absurd (isKind_unique h hdefault) (by decide)

/-- The default export of a name is an export of one name only. -/
theorem DefaultOf.unique {s : Value} {a b : String} (ha : DefaultOf s a) (hb : DefaultOf s b) :
    a = b :=
  Value.str.inj (ha.2.2.symm.trans hb.2.2)

/-! ## Tests of whole statements -/

/-- A list counts as present when it has an item. -/
theorem truthy_arr_iff {items : List Value} :
    (Value.arr items).truthy = true ↔ ∃ first rest, items = first :: rest := by
  cases items with
  | nil => simp [Value.truthy]
  | cons first rest => simp [Value.truthy]

theorem isExport_decides {s : Value} (h : isNode s = true) :
    Decides (isExport s) (ExportStatement s) := by
  obtain ⟨fields, kind, rfl, hkind⟩ := isNode_iff.mp h
  have htest : isExport (.obj fields) = .ok (exportKinds.contains kind) := by
    simp [isExport, fieldsOf?, hkind, Value.isOneOf]
  rw [htest]
  refine (Decides.of_bool _).congr ?_
  simp only [ExportStatement, isKind_obj_iff, hkind, exportKinds, Value.str.injEq]
  simp

/-! ## Expressions inside layers -/

/-- Taking the layers off an expression gives nothing or a node with the property that is no layer, if what
is inside a layer has the property. -/
theorem exists_unwrap {S : Value → Prop} {layers : Layers} (hnode : ∀ v, S v → isNode v = true)
    (hinside : ∀ v kind field, S v → isKind v kind = true → layers.lookup kind = some field →
      OrAbsent S (fieldOf v field)) {v : Value} (h : OrAbsent S v) :
    ∃ inner, unwrap layers v = .ok inner ∧
      OrAbsent (fun w => S w ∧ ∃ kind, isKind w kind = true ∧ layers.lookup kind = none) inner := by
  have hkinds : ∀ {fields : Fields}, OrAbsent S (.obj fields) →
      ∃ kind, Fields.get fields "type" = .str kind := by
    intro fields h
    obtain ⟨_, kind, heq, hkind⟩ := isNode_iff.mp (hnode _ (h.resolve_left (by simp)))
    cases heq
    exact ⟨kind, hkind⟩
  -- The recursion of `unwrap`, one layer at a time; the property is passed inwards.
  fun_induction unwrap layers v with
  | case1 => exact ⟨.null, rfl, .inl rfl⟩
  | case2 fields kind hkind field hlayer ih =>
    exact ih (hinside _ _ _ (h.resolve_left (by simp)) (isKind_obj_iff.mpr hkind) hlayer)
  | case3 fields kind hkind hlayer =>
    have hshaped : S (.obj fields) := h.resolve_left (by simp)
    exact ⟨.obj fields, rfl, .inr ⟨hshaped, kind, isKind_obj_iff.mpr hkind, hlayer⟩⟩
  | case4 fields _ htype => simpa [htype] using hkinds h
  | case5 fields _ htype => simpa [htype] using hkinds h
  | case6 fields _ htype => simpa [htype] using hkinds h
  | case7 fields hstr _ _ _ =>
    obtain ⟨kind, hkind⟩ := hkinds h
    exact (hstr kind hkind).elim
  | case8 v hnull hobj =>
    obtain ⟨fields, _, rfl, _⟩ := isNode_iff.mp (hnode v (h.resolve_left hnull))
    exact (hobj fields rfl).elim

/-- A layer that is found stands among the layers. -/
theorem mem_of_layer {layers : Layers} {kind field : String} (h : layers.lookup kind = some field) :
    (kind, field) ∈ layers := by
  obtain ⟨before, after, rfl, _⟩ := List.lookup_eq_some_iff.mp h
  exact List.mem_append_right _ List.mem_cons_self

/-- The kinds that group an expression are optional chains and parentheses. -/
theorem mem_groupLayers {kind field : String} (h : groupLayers.lookup kind = some field) :
    (kind = "ChainExpression" ∨ kind = "ParenthesizedExpression") ∧ field = "expression" := by
  have hall : ∀ layer ∈ groupLayers, (layer.1 = "ChainExpression" ∨
      layer.1 = "ParenthesizedExpression") ∧ layer.2 = "expression" := by decide
  exact hall _ (mem_of_layer h)

/-- A grouping node is an alias when what is inside it is one. -/
theorem aliasExpression_grouped_iff {fields : Fields} {kind field : String}
    (hkind : Fields.get fields "type" = .str kind)
    (hgroup : groupLayers.lookup kind = some field) :
    AliasExpression (.obj fields) ↔ AliasExpression (Fields.get fields field) := by
  obtain ⟨hkinds, rfl⟩ := mem_groupLayers hgroup
  have his : isKind (.obj fields) kind = true := isKind_obj_iff.mpr hkind
  constructor
  · intro halias
    cases halias with
    | name hname =>
      obtain rfl := isKind_unique his hname
      exact absurd hgroup (by decide)
    | member hmember =>
      obtain rfl := isKind_unique his hmember
      exact absurd hgroup (by decide)
    | chain _ inner => exact inner
    | parentheses _ inner => exact inner
  · intro inner
    rcases hkinds with rfl | rfl
    · exact .chain his inner
    · exact .parentheses his inner

/-- An expression is an alias when what is inside its grouping layers is one. -/
theorem aliasExpression_unwrap {v inner : Value} (h : unwrap groupLayers v = .ok inner) :
    AliasExpression v ↔ AliasExpression inner := by
  fun_induction unwrap groupLayers v with
  | case2 fields kind hkind field hgroup ih =>
    exact (aliasExpression_grouped_iff hkind hgroup).trans (ih h)
  | _ => cases h <;> rfl

/-- An expression that groups nothing is an alias when it is a name or a member. -/
theorem aliasExpression_iff_of_not_grouping {v : Value} {kind : String}
    (hkind : isKind v kind = true) (hgroup : groupLayers.lookup kind = none) :
    AliasExpression v ↔
      isKind v "Identifier" = true ∨ isKind v "MemberExpression" = true := by
  constructor
  · intro halias
    cases halias with
    | name hname => exact .inl hname
    | member hmember => exact .inr hmember
    | chain hchain _ =>
      obtain rfl := isKind_unique hkind hchain
      exact absurd hgroup (by decide)
    | parentheses hparen _ =>
      obtain rfl := isKind_unique hkind hparen
      exact absurd hgroup (by decide)
  · rintro (hname | hmember)
    · exact .name hname
    · exact .member hmember

/-! ## Literals and identifiers -/

/-- Tests of a node by its own fields give an answer for every node, and for none. -/
theorem exists_isNumericLiteral {v : Value} (h : OrAbsent (fun w => isNode w = true) v) :
    ∃ b, isNumericLiteral v = .ok b := by
  rcases h with rfl | h
  · exact ⟨false, rfl⟩
  · obtain ⟨fields, _, rfl, _⟩ := isNode_iff.mp h
    exact ⟨_, rfl⟩

theorem exists_isBooleanLiteral {v : Value} (h : OrAbsent (fun w => isNode w = true) v) :
    ∃ b, isBooleanLiteral v = .ok b := by
  rcases h with rfl | h
  · exact ⟨false, rfl⟩
  · obtain ⟨fields, _, rfl, _⟩ := isNode_iff.mp h
    exact ⟨_, rfl⟩

theorem isIdentifier_decides {v : Value} (h : OrAbsent (fun w => isNode w = true) v) :
    Decides (isIdentifier v) (isKind v "Identifier" = true) := by
  rcases h with rfl | h
  · exact .inr ⟨rfl, Bool.false_ne_true⟩
  · obtain ⟨fields, _, rfl, _⟩ := isNode_iff.mp h
    exact .of_bool _

namespace ExportReading

variable {S : Value → Prop} (R : ExportReading S) {v s : Value}

include R

theorem optional (h : OrAbsent S v) : OrAbsent (fun w => Syntax.isNode w = true) v :=
  h.imp R.isNode

/-! ## Lists of names -/

theorem listsLocalNames_decides (h : S s) : Decides (listsLocalNames s) (LocalList s) := by
  obtain ⟨fields, kind, rfl, hkind⟩ := isNode_iff.mp (R.isNode h)
  simp only [listsLocalNames, fieldsOf?, ok_bind, pure_eq_ok]
  refine (Decides.of_bool _).congr ?_
  simp only [Bool.and_eq_true, isNull_iff]
  constructor
  · rintro ⟨⟨⟨hnamed, hdeclaration⟩, hsource⟩, hspecifiers⟩
    refine ⟨hnamed, hdeclaration, hsource, ?_⟩
    rcases R.specifiers h hnamed with hnull | ⟨items, hitems, _⟩
    · rw [fieldOf_obj] at hnull
      rw [hnull] at hspecifiers
      cases hspecifiers
    · rw [fieldOf_obj] at hitems
      rw [hitems, truthy_arr_iff] at hspecifiers
      obtain ⟨first, rest, rfl⟩ := hspecifiers
      exact ⟨first, rest, hitems⟩
  · rintro ⟨hnamed, hdeclaration, hsource, first, rest, hspecifiers⟩
    rw [fieldOf_obj] at hdeclaration hsource hspecifiers
    refine ⟨⟨⟨hnamed, hdeclaration⟩, hsource⟩, ?_⟩
    rw [hspecifiers, truthy_arr_iff]
    exact ⟨first, rest, rfl⟩

theorem exportsOnlyTypes_decides (h : S s) : Decides (exportsOnlyTypes s) (TypesOnly s) := by
  obtain ⟨fields, _, rfl, _⟩ := isNode_iff.mp (R.isNode h)
  simp only [exportsOnlyTypes, fieldsOf?, ok_bind, pure_eq_ok, isText_type]
  refine .ite (fun hall => ?_) (fun hall => .ite (fun hnamed => ?_) (fun hnamed => ?_))
  · have hnamed : ¬ isKind (.obj fields) "ExportNamedDeclaration" = true := fun hnamed =>
      absurd (isKind_unique hall hnamed) (by decide)
    refine (Decides.of_bool _).congr ?_
    simp [TypesOnly, hall, hnamed, MarkedAsType, isText_iff]
  · refine .inr ⟨rfl, ?_⟩
    rintro (⟨hall', _⟩ | ⟨hnamed', _⟩)
    · exact hall hall'
    · rw [hnamed'] at hnamed
      cases hnamed
  · have hnamed : isKind (.obj fields) "ExportNamedDeclaration" = true := by simpa using hnamed
    refine .ite (fun hmarked => ?_) (fun hmarked => ?_)
    · exact .inl ⟨rfl, .inr ⟨hnamed, .inl (isText_iff.mp hmarked)⟩⟩
    · have hmarked : ¬ MarkedAsType (.obj fields) := fun hm => hmarked (isText_iff.mpr hm)
      have hiff : TypesOnly (.obj fields) ↔ ∃ first rest,
          Fields.get fields "specifiers" = .arr (first :: rest) ∧
            ∀ specifier ∈ first :: rest, MarkedAsType specifier := by
        simp [TypesOnly, hall, hnamed, hmarked]
      refine Decides.congr ?_ hiff.symm
      rcases R.specifiers h hnamed with hnull | ⟨items, hitems, hnodes⟩
      · rw [fieldOf_obj] at hnull
        rw [hnull]
        exact .inr ⟨rfl, by simp⟩
      · rw [fieldOf_obj] at hitems
        rw [hitems]
        refine .ite (fun hpresent => ?_) (fun hpresent => ?_)
        · obtain ⟨first, rest, rfl⟩ := truthy_arr_iff.mp hpresent
          have hall' : Decides ((first :: rest).allM fun specifier : Value => do
              let kind ← specifier.get "exportKind"
              Except.ok (kind.isText "type")) (∀ specifier ∈ first :: rest, MarkedAsType specifier) :=
            Decides.allM fun specifier hmem => by
              obtain ⟨content, _, rfl, _⟩ := isNode_iff.mp (hnodes specifier hmem)
              exact (Decides.of_bool _).congr isText_iff
          exact hall'.congr (by simp)
        · refine .inr ⟨rfl, ?_⟩
          rintro ⟨first, rest, heq, _⟩
          cases heq
          exact hpresent rfl

/-! ## Exported variables -/

/-- What is inside all grouping layers of an expression. -/
theorem exists_unwrap_group (h : OrAbsent S v) :
    ∃ inner, unwrap groupLayers v = .ok inner ∧ OrAbsent (fun w => S w ∧
      ∃ kind, isKind w kind = true ∧ groupLayers.lookup kind = none) inner := by
  refine exists_unwrap (fun _ => R.isNode) (fun w kind field hw hkind hgroup => ?_) h
  obtain ⟨rfl | rfl, rfl⟩ := mem_groupLayers hgroup
  · exact R.one hw hkind "expression" (by decide)
  · exact R.one hw hkind "expression" (by decide)

theorem isAlias_decides (h : OrAbsent S v) : Decides (isAlias v) (AliasExpression v) := by
  obtain ⟨inner, hinner, hend⟩ := R.exists_unwrap_group h
  refine Decides.congr ?_ (aliasExpression_unwrap hinner).symm
  rw [isAlias, hinner, ok_bind]
  rcases hend with rfl | ⟨hshaped, kind, hkind, hgroup⟩
  · refine .inr ⟨rfl, fun hnull => ?_⟩
    cases hnull with
    | name hkind | member hkind | chain hkind | parentheses hkind => cases hkind
  · obtain ⟨fields, _, rfl, _⟩ := isNode_iff.mp (R.isNode hshaped)
    refine (Decides.of_bool _).congr ?_
    rw [aliasExpression_iff_of_not_grouping hkind hgroup, Bool.or_eq_true]
    rfl

/-- A named export of a variable declaration gives the declaration, any other statement nothing. -/
theorem exportedVariables_eq (h : S s) :
    (∃ fields, fieldOf s "declaration" = .obj fields ∧ VariableExport s ∧
        S (.obj fields) ∧ exportedVariables s = .ok (some fields)) ∨
      (¬ VariableExport s ∧ exportedVariables s = .ok none) := by
  obtain ⟨fields, _, rfl, _⟩ := isNode_iff.mp (R.isNode h)
  simp only [exportedVariables, fieldsOf?, ok_bind, pure_eq_ok, isText_type]
  by_cases hnamed : isKind (.obj fields) "ExportNamedDeclaration" = true
  · rcases R.one h hnamed "declaration" (by decide) with hnull | hshaped
    · rw [fieldOf_obj] at hnull
      refine .inr ⟨?_, by simp [hnamed, hnull]⟩
      rintro ⟨_, hvariable⟩
      rw [fieldOf_obj, hnull] at hvariable
      cases hvariable
    · obtain ⟨declaration, _, hdeclaration, _⟩ := isNode_iff.mp (R.isNode hshaped)
      rw [hdeclaration] at hshaped
      rw [fieldOf_obj] at hdeclaration
      by_cases hvariable : isKind (.obj declaration) "VariableDeclaration" = true
      · refine .inl ⟨declaration, hdeclaration, ⟨hnamed, ?_⟩, hshaped, ?_⟩
        · rw [fieldOf_obj, hdeclaration]
          exact hvariable
        · simp [hnamed, hdeclaration, hvariable]
      · refine .inr ⟨?_, ?_⟩
        · rintro ⟨_, hvariable'⟩
          rw [fieldOf_obj, hdeclaration] at hvariable'
          exact hvariable hvariable'
        · simp [hnamed, hdeclaration, hvariable]
  · refine .inr ⟨fun hvariable => hnamed hvariable.1, ?_⟩
    simp [hnamed]

theorem exportsAlias_decides (h : S s) : Decides (exportsAlias s) (AliasExport s) := by
  unfold exportsAlias
  rcases R.exportedVariables_eq h with ⟨fields, hfields, hvariable, hshaped, heq⟩ | ⟨hno, heq⟩
  · rw [heq, ok_bind]
    have hkind : isKind (.obj fields) "VariableDeclaration" = true := hfields ▸ hvariable.2
    have hiff : AliasExport s ↔ ∃ declarators,
        Fields.get fields "declarations" = .arr declarators ∧
          ∃ d ∈ declarators, AliasExpression (fieldOf d "init") := by
      rw [AliasExport, hfields]
      exact and_iff_right hvariable
    refine Decides.congr ?_ hiff.symm
    rcases R.declarators hshaped hkind with hnull | ⟨declarators, hitems, hall⟩
    · rw [fieldOf_obj] at hnull
      refine .inr ⟨?_, by simp [hnull]⟩
      simp [hnull, Value.orEmpty, Value.truthy, Value.elements]
    · rw [fieldOf_obj] at hitems
      have hany : Decides (declarators.anyM fun d : Value => do isAlias (← d.get "init"))
          (∃ d ∈ declarators, AliasExpression (fieldOf d "init")) :=
        Decides.anyM fun d hd => by
          obtain ⟨hnode, _, hinit⟩ := hall d hd
          obtain ⟨content, _, rfl, _⟩ := isNode_iff.mp hnode
          exact R.isAlias_decides hinit
      have helements : (Value.arr declarators).orEmpty.elements = .ok declarators := by
        cases declarators <;> rfl
      simp only [hitems, helements, ok_bind]
      exact hany.congr (by simp)
  · rw [heq, ok_bind]
    exact .inr ⟨rfl, fun halias => hno halias.1⟩

/-! ## Constants -/

/-- Whether a sign or a negation stands before a literal can always be said. -/
theorem exists_isConstant (h : OrAbsent S v) : ∃ b, isConstant v = .ok b := by
  obtain ⟨inner, hinner, hend⟩ := R.exists_unwrap_group h
  rw [isConstant, hinner, ok_bind]
  rcases hend with rfl | ⟨hshaped, kind, hkind, _⟩
  · exact ⟨false, rfl⟩
  · obtain ⟨fields, _, rfl, _⟩ := isNode_iff.mp (R.isNode hshaped)
    simp only [pure_eq_ok, isText_type]
    split
    · exact ⟨_, rfl⟩
    · split
      · exact ⟨_, rfl⟩
      · split
        · next hunary =>
          have hargument := R.optional (R.one hshaped hunary "argument" (by decide))
          have hoperator := R.operator hshaped hunary
          rw [fieldOf_obj] at hoperator hargument
          obtain ⟨sign, hsign⟩ : ∃ sign, (Fields.get fields "operator").isOneOf ["+", "-", "~"] =
              .ok sign := by
            cases hvalue : Fields.get fields "operator" with
            | arr | obj | link =>
              rw [hvalue] at hoperator
              cases hoperator
            | _ => exact ⟨_, rfl⟩
          rw [hsign, ok_bind]
          split
          · exact exists_isNumericLiteral hargument
          · split
            · exact exists_isBooleanLiteral hargument
            · exact ⟨false, rfl⟩
        · exact ⟨false, rfl⟩

theorem exists_exportsConstants (h : S s) : ∃ b, exportsConstants s = .ok b := by
  have hvariables := R.exportedVariables_eq h
  obtain ⟨fields, _, rfl, _⟩ := isNode_iff.mp (R.isNode h)
  simp only [exportsConstants, fieldsOf?, ok_bind, pure_eq_ok]
  split
  · exact ⟨false, rfl⟩
  · rcases hvariables with ⟨declaration, hfields, hvariable, hshaped, heq⟩ | ⟨_, heq⟩
    · rw [heq, ok_bind]
      have hkind : isKind (.obj declaration) "VariableDeclaration" = true := hfields ▸ hvariable.2
      simp only
      split
      · exact ⟨false, rfl⟩
      · split
        · exact ⟨false, rfl⟩
        · next hpresent =>
          rcases R.declarators hshaped hkind with hnull | ⟨declarators, hitems, hall⟩
          · rw [fieldOf_obj] at hnull
            simp [hnull, Value.truthy] at hpresent
          · rw [fieldOf_obj] at hitems
            rw [hitems]
            refine (Decides.allM fun d hd => .of_exists_ok ?_).exists_ok
            obtain ⟨hnode, hid, hinit⟩ := hall d hd
            obtain ⟨content, _, rfl, _⟩ := isNode_iff.mp hnode
            obtain ⟨named, hnamed⟩ := (isIdentifier_decides (R.optional hid)).exists_ok
            rw [fieldOf_obj] at hnamed
            simp only [Value.get, ok_bind, hnamed]
            split
            · exact R.exists_isConstant hinit
            · exact ⟨false, rfl⟩
    · rw [heq]
      exact ⟨false, rfl⟩

/-- Whether a statement may stand anywhere can always be said. -/
theorem exists_isExempt (allowReExport : Bool) (h : S s) : ∃ b, isExempt allowReExport s = .ok b := by
  obtain ⟨types, htypes⟩ := (R.exportsOnlyTypes_decides h).exists_ok
  obtain ⟨constants, hconstants⟩ := R.exists_exportsConstants h
  rw [isExempt, htypes, hconstants]
  simp only [ok_bind, pure_eq_ok]
  split
  · exact ⟨true, rfl⟩
  · split
    · exact ⟨true, rfl⟩
    · split
      · obtain ⟨fields, _, rfl, _⟩ := isNode_iff.mp (R.isNode h)
        exact ⟨_, rfl⟩
      · exact ⟨false, rfl⟩

end ExportReading

/-! ## Default exports -/

/-- A name that is read from a statement is that of an identifier in a default export. -/
theorem defaultName_eq_ok {s name : Value} (h : defaultName s = .ok name) :
    name = .null ∨ isKind s "ExportDefaultDeclaration" = true ∧
      isKind (fieldOf s "declaration") "Identifier" = true ∧
      fieldOf (fieldOf s "declaration") "name" = name := by
  cases s with
  | null => exact .inl (Except.ok.inj h).symm
  | obj fields =>
    simp only [defaultName, fieldsOf?, ok_bind, pure_eq_ok, isText_type] at h
    by_cases hdefault : isKind (.obj fields) "ExportDefaultDeclaration" = true
    · simp only [hdefault, Bool.not_true] at h
      obtain ⟨named, hnamed, h⟩ := bind_eq_ok_iff.mp h
      cases named with
      | false => exact .inl (Except.ok.inj h).symm
      | true =>
        cases hdeclaration : Fields.get fields "declaration" with
        | obj declaration =>
          rw [hdeclaration] at hnamed h
          refine .inr ⟨hdefault, ?_⟩
          rw [fieldOf_obj, hdeclaration]
          refine ⟨Except.ok.inj hnamed, ?_⟩
          cases hlookup : declaration.lookup "name" with
          | none => simp [Value.require, hlookup] at h
          | some value =>
            simp only [if_true, Value.require, hlookup] at h
            rw [fieldOf_obj, Fields.get, hlookup]
            exact Except.ok.inj h
        | _ =>
          rw [hdeclaration] at hnamed
          cases hnamed
    · simp only [hdefault] at h
      exact .inl (Except.ok.inj h).symm
  | _ => cases h

/-- The name that is read from a statement is the one of a default export, if it is one. -/
theorem ExportReading.defaultName_eq {S : Value → Prop} (R : ExportReading S) {s : Value} (h : S s) :
    (∃ name, DefaultOf s name ∧ defaultName s = .ok (.str name)) ∨
      ((∀ name, ¬ DefaultOf s name) ∧ defaultName s = .ok .null) := by
  obtain ⟨fields, _, rfl, _⟩ := isNode_iff.mp (R.isNode h)
  simp only [defaultName, fieldsOf?, ok_bind, pure_eq_ok, isText_type]
  by_cases hdefault : isKind (.obj fields) "ExportDefaultDeclaration" = true
  · rcases R.one h hdefault "declaration" (by decide) with hnull | hshaped
    · rw [fieldOf_obj] at hnull
      refine .inr ⟨?_, by simp [hdefault, hnull, isIdentifier]⟩
      rintro name ⟨_, hname, _⟩
      rw [fieldOf_obj, hnull] at hname
      cases hname
    · obtain ⟨declaration, _, hdeclaration, _⟩ := isNode_iff.mp (R.isNode hshaped)
      rw [hdeclaration] at hshaped
      rw [fieldOf_obj] at hdeclaration
      by_cases hname : isKind (.obj declaration) "Identifier" = true
      · obtain ⟨name, htext⟩ := R.name hshaped hname
        refine .inl ⟨name, ⟨hdefault, ?_, ?_⟩, ?_⟩
        · rw [fieldOf_obj, hdeclaration]
          exact hname
        · rw [fieldOf_obj fields, hdeclaration]
          exact htext
        · rw [fieldOf_obj] at htext
          have hlookup := lookup_of_get_eq htext (by simp)
          simp [hdefault, hdeclaration, isIdentifier, isText_type, hname, Value.require, hlookup]
      · refine .inr ⟨?_, ?_⟩
        · rintro name ⟨_, hname', _⟩
          rw [fieldOf_obj, hdeclaration] at hname'
          exact hname hname'
        · simp [hdefault, hdeclaration, isIdentifier, isText_type, hname]
  · refine .inr ⟨fun name hof => hdefault hof.1, ?_⟩
    simp [hdefault]

end TreeLint.Syntax
