/-
  Trees whose nodes have the fields that their kinds promise.

  A table says, kind by kind, what the fields of a node may hold.  A tree has the shapes of a table
  when each of its nodes has, and when the span of each node is missing or made of whole numbers.
  What an analysis reads from such a tree is then again a tree of this sort, or absent.
-/
import TreeLint.Proofs.Outcome
import TreeLint.Syntax.Node
import TreeLint.Syntax.Span

set_option autoImplicit false

namespace TreeLint.Syntax

open TreeLint.Json

/-- The value of a field, the absent value where there is no such field or no object. -/
def fieldOf (v : Value) (name : String) : Value :=
  match v with
  | .obj fields => Fields.get fields name
  | _ => .null

@[simp] theorem fieldOf_obj (fields : Fields) (name : String) :
    fieldOf (.obj fields) name = Fields.get fields name := rfl

/-- A field that is not absent is there. -/
theorem lookup_of_get_eq {fields : Fields} {name : String} {v : Value}
    (h : Fields.get fields name = v) (hnull : v ≠ .null) : fields.lookup name = some v := by
  unfold Fields.get at h
  cases hlookup : fields.lookup name with
  | none =>
    rw [hlookup] at h
    exact absurd h.symm hnull
  | some w =>
    rw [hlookup] at h
    exact congrArg some h

/-! ## Kinds -/

theorem isText_iff {v : Value} {text : String} : v.isText text = true ↔ v = .str text := by
  cases v with
  | str s => simp [Value.isText]
  | _ => simp [Value.isText]

theorem isNull_iff {v : Value} : v.isNull = true ↔ v = .null := by
  cases v <;> simp [Value.isNull]

theorem isKind_iff {v : Value} {kind : String} : isKind v kind = true ↔ kind? v = some kind := by
  cases v with
  | obj fields =>
    show (Fields.get fields "type").isText kind = true ↔ (Fields.get fields "type").text? = some kind
    rw [isText_iff]
    cases Fields.get fields "type" <;> simp [Value.text?]
  | _ => simp [isKind, kind?]

theorem isKind_congr {v w : Value} (h : kind? v = kind? w) (kind : String) :
    isKind v kind = isKind w kind := by
  rw [Bool.eq_iff_iff, isKind_iff, isKind_iff, h]

theorem isKind_obj_iff {fields : Fields} {kind : String} :
    isKind (.obj fields) kind = true ↔ Fields.get fields "type" = .str kind :=
  isText_iff

theorem isText_type (fields : Fields) (kind : String) :
    (Fields.get fields "type").isText kind = isKind (.obj fields) kind := by
  rw [isKind]

/-- A node has one kind only. -/
theorem isKind_unique {v : Value} {a b : String} (ha : isKind v a = true)
    (hb : isKind v b = true) : a = b :=
  Option.some.inj ((isKind_iff.mp ha).symm.trans (isKind_iff.mp hb))

theorem isNode_of_isKind {v : Value} {kind : String} (h : isKind v kind = true) :
    isNode v = true := by
  rw [isNode, isKind_iff.mp h]
  rfl

/-- A node is an object with a text for its kind. -/
theorem isNode_iff {v : Value} :
    isNode v = true ↔ ∃ fields kind, v = .obj fields ∧ Fields.get fields "type" = .str kind := by
  constructor
  · intro h
    obtain ⟨kind, hkind⟩ := Option.isSome_iff_exists.mp h
    cases v with
    | obj fields => exact ⟨fields, kind, rfl, isKind_obj_iff.mp (isKind_iff.mpr hkind)⟩
    | _ => cases hkind
  · rintro ⟨fields, kind, rfl, hkind⟩
    exact isNode_of_isKind (isKind_obj_iff.mpr hkind)

/-! ## Children in listed fields -/

/-- For a kind of the language the child fields are the listed ones. -/
theorem childFields_of_kind {fields : Fields} {kind : String} {names : List String}
    (hkind : Fields.get fields "type" = .str kind) (hlisted : listedFields? kind = some names) :
    childFields fields = names := by
  unfold childFields
  rw [hkind]
  simp [Value.text?, hlisted]

/-- A node in a listed field is a child, in its place. -/
theorem mem_edges_of_field {v : Value} {kind name : String} (hkind : isKind v kind = true)
    (hname : name ∈ (listedFields? kind).getD []) (hnode : isNode (fieldOf v name) = true) :
    ⟨⟨name, none⟩, fieldOf v name⟩ ∈ edges v := by
  obtain ⟨fields, _, rfl, _⟩ := isNode_iff.mp (isNode_of_isKind hkind)
  obtain ⟨content, _, hcontent, _⟩ := isNode_iff.mp hnode
  cases hlisted : listedFields? kind with
  | none =>
    rw [hlisted] at hname
    cases hname
  | some names =>
    rw [hlisted] at hname
    rw [edges, childFields_of_kind (isKind_obj_iff.mp hkind) hlisted]
    refine List.mem_flatMap.mpr ⟨name, hname, ?_⟩
    rw [fieldOf_obj] at hnode hcontent ⊢
    rw [hcontent] at hnode ⊢
    simp [fieldEdges, hnode]

/-- A node in a listed field is a child. -/
theorem exists_edge_of_field {v : Value} {kind name : String} (hkind : isKind v kind = true)
    (hname : name ∈ (listedFields? kind).getD []) (hnode : isNode (fieldOf v name) = true) :
    ∃ e ∈ edges v, e.child = fieldOf v name :=
  ⟨_, mem_edges_of_field hkind hname hnode, rfl⟩

/-- A node in a list in a listed field is a child. -/
theorem exists_edge_of_item {v item : Value} {kind name : String} {items : List Value}
    (hkind : isKind v kind = true) (hname : name ∈ (listedFields? kind).getD [])
    (hitems : fieldOf v name = .arr items) (hitem : item ∈ items) (hnode : isNode item = true) :
    ∃ e ∈ edges v, e.child = item := by
  obtain ⟨fields, _, rfl, _⟩ := isNode_iff.mp (isNode_of_isKind hkind)
  cases hlisted : listedFields? kind with
  | none =>
    rw [hlisted] at hname
    cases hname
  | some names =>
    rw [hlisted] at hname
    obtain ⟨i, hi, hget⟩ := List.getElem_of_mem hitem
    refine ⟨⟨⟨name, some i⟩, item⟩, ?_, rfl⟩
    rw [edges, childFields_of_kind (isKind_obj_iff.mp hkind) hlisted]
    refine List.mem_flatMap.mpr ⟨name, hname, ?_⟩
    rw [fieldOf_obj] at hitems
    rw [hitems]
    refine List.mem_filterMap.mpr ⟨(item, i), ?_, by simp [hnode]⟩
    rw [List.mk_mem_zipIdx_iff_getElem?, List.getElem?_eq_getElem hi, hget]

/-! ## Shapes of fields -/

/-- What a field may hold. -/
inductive Shape where
  /-- A text. -/
  | text
  /-- Nothing, or a node: of one of the kinds, if any are named. -/
  | one (kinds : List String)
  /-- Nothing, or a list of nodes: of the kinds, if any are named. -/
  | many (kinds : List String)
  /-- Nothing, or a list of nodes with gaps. -/
  | slots
deriving DecidableEq, Repr

/-- The value is a node of one of the kinds, of any kind if none are named. -/
def isOfKinds (kinds : List String) (v : Value) : Bool :=
  isNode v && (kinds.isEmpty || kinds.any fun kind => isKind v kind)

theorem exists_kind_of_isOfKinds {kinds : List String} {v : Value} (hsome : kinds.isEmpty = false)
    (h : isOfKinds kinds v = true) : ∃ kind ∈ kinds, isKind v kind = true := by
  rw [isOfKinds, hsome, Bool.false_or] at h
  exact List.any_eq_true.mp (Bool.and_eq_true_iff.mp h).2

/-- A field of the shape may hold the value. -/
def Shape.admits (shape : Shape) (v : Value) : Bool :=
  match shape, v with
  | .text, v => v.text?.isSome
  | .one kinds, v => v.isNull || isOfKinds kinds v
  | .many kinds, .arr items => items.all fun item => isOfKinds kinds item
  | .many _, v => v.isNull
  | .slots, .arr items => items.all fun item => item.isNull || isNode item
  | .slots, v => v.isNull

/-- The shapes of the fields of each kind. -/
abbrev ShapeTable := List (String × List (String × Shape))

/-- The shapes that a table promises for a kind. -/
def ShapeTable.row (table : ShapeTable) (kind : String) : List (String × Shape) :=
  (table.lookup kind).getD []

/-- The table gives the shape of a field that holds children. -/
def ShapeTable.Promises (table : ShapeTable) (kind name : String) (shape : Shape) : Prop :=
  name ∈ (listedFields? kind).getD [] ∧ (name, shape) ∈ table.row kind

instance (table : ShapeTable) (kind name : String) (shape : Shape) :
    Decidable (table.Promises kind name shape) :=
  inferInstanceAs (Decidable (_ ∧ _))

/-- The span that the fields of a node give is missing, or has whole numbers for its ends. -/
def hasWholeSpan (fields : Fields) : Bool :=
  match spanOf fields with
  | none => true
  | some s => s.wholeEnds?.isSome

/-- The value is a node whose fields have the shapes of the table, and whose span is plain. -/
def hasShape (table : ShapeTable) (v : Value) : Bool :=
  match v with
  | .obj fields =>
    match (Fields.get fields "type").text? with
    | some kind =>
      ((table.row kind).all fun (name, shape) => shape.admits (Fields.get fields name)) &&
        hasWholeSpan fields
    | none => false
  | _ => false

/-- The value is a tree all of whose nodes have the shapes of the table. -/
inductive WellShaped (table : ShapeTable) : Value → Prop
  /-- The node itself has them, and so have the trees of its children. -/
  | node {v : Value} (here : hasShape table v = true)
      (below : ∀ e ∈ edges v, WellShaped table e.child) : WellShaped table v

/-- Values with the property are nodes with the shapes of the table, and their children have the property
again. -/
structure ShapedBy (table : ShapeTable) (S : Value → Prop) : Prop where
  /-- The node itself has the shapes. -/
  here {v : Value} (h : S v) : hasShape table v = true
  /-- Its children have the property. -/
  child {v : Value} (h : S v) {e : Edge} (he : e ∈ edges v) : S e.child

/-- Trees all of whose nodes have the shapes. -/
theorem shapedBy_wellShaped (table : ShapeTable) : ShapedBy table (WellShaped table) where
  here h := by
    cases h with
    | node here _ => exact here
  child h e he := by
    cases h with
    | node _ below => exact below e he

/-- The value is absent or has the property. -/
def OrAbsent (S : Value → Prop) (v : Value) : Prop :=
  v = .null ∨ S v

/-- The value is absent or a list whose items have the property. -/
def ListOf (S : Value → Prop) (v : Value) : Prop :=
  v = .null ∨ ∃ items, v = .arr items ∧ ∀ item ∈ items, S item

theorem OrAbsent.imp {S T : Value → Prop} {v : Value} (h : OrAbsent S v) (himp : S v → T v) :
    OrAbsent T v :=
  Or.imp_right himp h

theorem ListOf.imp {S T : Value → Prop} {v : Value} (h : ListOf S v)
    (himp : ∀ items, v = .arr items → ∀ item ∈ items, S item → T item) : ListOf T v := by
  rcases h with hnull | ⟨items, hitems, hall⟩
  · exact .inl hnull
  · exact .inr ⟨items, hitems, fun item hitem => himp items hitems item hitem (hall item hitem)⟩

theorem ListOf.forall_mem {S : Value → Prop} {v : Value} {items : List Value} (h : ListOf S v)
    (hitems : v = .arr items) : ∀ item ∈ items, S item := by
  rcases h with hnull | ⟨items', hitems', hall⟩
  · cases hnull.symm.trans hitems
  · cases hitems'.symm.trans hitems
    exact hall

theorem ListOf.eq_null {S : Value → Prop} {v : Value} (h : ListOf S v)
    (hno : ∀ items, v = .arr items → False) : v = .null :=
  h.resolve_right fun ⟨items, hitems, _⟩ => hno items hitems

namespace ShapedBy

variable {table : ShapeTable} {S : Value → Prop} (T : ShapedBy table S) {v : Value}

include T

/-- A shaped value is an object with a kind, the promised fields and a plain span. -/
theorem exists_fields (h : S v) :
    ∃ fields kind, v = .obj fields ∧ Fields.get fields "type" = .str kind ∧
      (∀ entry ∈ table.row kind, entry.2.admits (Fields.get fields entry.1) = true) ∧
      hasWholeSpan fields = true := by
  have here := T.here h
  cases v with
  | obj fields =>
    cases hkind : Fields.get fields "type" with
    | str kind =>
      simp only [hasShape, hkind, Value.text?, Bool.and_eq_true, List.all_eq_true] at here
      exact ⟨fields, kind, rfl, hkind, here.1, here.2⟩
    | _ => simp [hasShape, hkind, Value.text?] at here
  | _ => simp [hasShape] at here

theorem isNode (h : S v) : isNode v = true := by
  obtain ⟨fields, kind, rfl, hkind, _⟩ := T.exists_fields h
  exact isNode_iff.mpr ⟨fields, kind, rfl, hkind⟩

/-- A promised field holds what its shape admits. -/
theorem admits (h : S v) {kind name : String} {shape : Shape}
    (hkind : isKind v kind = true) (hrow : (name, shape) ∈ table.row kind) :
    shape.admits (fieldOf v name) = true := by
  obtain ⟨fields, kind', rfl, hkind', hall, _⟩ := T.exists_fields h
  have hsame : kind' = kind := isKind_unique (isKind_obj_iff.mpr hkind') hkind
  subst hsame
  exact hall _ hrow

/-- A field for a text holds one. -/
theorem text (h : S v) {kind : String} (hkind : isKind v kind = true)
    (name : String) (hrow : (name, .text) ∈ table.row kind) : ∃ s, fieldOf v name = .str s := by
  have hadmits := T.admits h hkind hrow
  cases hvalue : fieldOf v name with
  | str s => exact ⟨s, rfl⟩
  | _ => simp [hvalue, Shape.admits, Value.text?] at hadmits

/-- A field for one node is empty or holds a shaped one of the right kind. -/
theorem one (h : S v) {kind : String} (hkind : isKind v kind = true)
    (name : String) (kinds : List String) (hshape : table.Promises kind name (.one kinds)) :
    OrAbsent (fun w => S w ∧ isOfKinds kinds w = true) (fieldOf v name) := by
  have hadmits := T.admits h hkind hshape.2
  simp only [Shape.admits, Bool.or_eq_true, isNull_iff] at hadmits
  refine hadmits.imp_right fun hkinds => ⟨?_, hkinds⟩
  have hnode := (Bool.and_eq_true_iff.mp hkinds).1
  obtain ⟨e, he, hchild⟩ := exists_edge_of_field hkind hshape.1 hnode
  exact hchild ▸ T.child h he

/-- A field for nodes is empty or holds a list of shaped ones of the right kinds. -/
theorem many (h : S v) {kind : String} (hkind : isKind v kind = true)
    (name : String) (kinds : List String) (hshape : table.Promises kind name (.many kinds)) :
    ListOf (fun item => S item ∧ isOfKinds kinds item = true) (fieldOf v name) := by
  have hadmits := T.admits h hkind hshape.2
  cases hvalue : fieldOf v name with
  | null => exact .inl rfl
  | arr items =>
    simp only [hvalue, Shape.admits, List.all_eq_true] at hadmits
    refine .inr ⟨items, rfl, fun item hitem => ⟨?_, hadmits item hitem⟩⟩
    have hnode := (Bool.and_eq_true_iff.mp (hadmits item hitem)).1
    obtain ⟨e, he, hchild⟩ := exists_edge_of_item hkind hshape.1 hvalue hitem hnode
    exact hchild ▸ T.child h he
  | _ => simp [hvalue, Shape.admits, Value.isNull] at hadmits

/-- A field for nodes with gaps is empty or holds a list of shaped nodes and gaps. -/
theorem slots (h : S v) {kind : String} (hkind : isKind v kind = true)
    (name : String) (hshape : table.Promises kind name .slots) :
    ListOf (OrAbsent S) (fieldOf v name) := by
  have hadmits := T.admits h hkind hshape.2
  cases hvalue : fieldOf v name with
  | null => exact .inl rfl
  | arr items =>
    simp only [hvalue, Shape.admits, List.all_eq_true, Bool.or_eq_true, isNull_iff] at hadmits
    refine .inr ⟨items, rfl, fun item hitem => (hadmits item hitem).imp_right fun hnode => ?_⟩
    obtain ⟨e, he, hchild⟩ := exists_edge_of_item hkind hshape.1 hvalue hitem hnode
    exact hchild ▸ T.child h he
  | _ => simp [hvalue, Shape.admits, Value.isNull] at hadmits

end ShapedBy

end TreeLint.Syntax
