/-
  Nodes of a syntax tree.

  A node is an object whose `type` is a text.  Its children are the nodes in its child fields, alone
  or as items of a list; whatever else a field holds is no part of the tree.
-/
import TreeLint.Json.Access
import TreeLint.Syntax.Kind

set_option autoImplicit false

namespace TreeLint.Syntax

open TreeLint.Json

/-- The kind of a node, and of nothing else. -/
def kind? : Value → Option String
  | .obj fields => (Fields.get fields "type").text?
  | _ => none

/-- The value is a node. -/
def isNode (v : Value) : Bool :=
  (kind? v).isSome

/-- The value is a node of the given kind. -/
def isKind (v : Value) (kind : String) : Bool :=
  match v with
  | .obj fields => (Fields.get fields "type").isText kind
  | _ => false

/-! ## Children -/

/-- The way from a node to one of its children. -/
structure Edge where
  /-- The field, and the place in it, that holds the child. -/
  step : Step
  /-- The child. -/
  child : Value

/-- The nodes among the items of a list, each with its place. -/
def itemEdges (field : String) (items : List Value) : List Edge :=
  items.zipIdx.filterMap fun (item, i) =>
    if isNode item then some ⟨⟨field, some i⟩, item⟩ else none

/-- The children that a field with the given value holds. -/
def fieldEdges (field : String) (value : Value) : List Edge :=
  match value with
  | .arr items => itemEdges field items
  | value => if isNode value then [⟨⟨field, none⟩, value⟩] else []

/-- The names in order, each at its first place only. -/
def distinct : List String → List String
  | [] => []
  | name :: rest => name :: (distinct rest).filter (· ≠ name)

/-- The names of the fields that are searched for children: the listed ones for a kind of the
language, all but the way back for any other. -/
def childFields (fields : Fields) : List String :=
  match (Fields.get fields "type").text?.bind listedFields? with
  | some names => names
  | none => distinct ((fields.map Prod.fst).filter (· ≠ parentField))

/-- The children of a node in the order of the source. -/
def edges : Value → List Edge
  | .obj fields => (childFields fields).flatMap fun name => fieldEdges name (Fields.get fields name)
  | _ => []

/-- Asking for children takes an object, and a `type` that can be looked up. -/
def checkedEdges (v : Value) : Except Fault (List Edge) := do
  let kind ← v.get "type"
  let _ ← kind.key
  return edges v

/-- No name is lost. -/
theorem mem_distinct {name : String} {names : List String} :
    name ∈ distinct names ↔ name ∈ names := by
  induction names with
  | nil => simp [distinct]
  | cons other rest ih =>
    by_cases h : name = other
    · simp [distinct, h]
    · simp [distinct, h, ih]

/-- No name is left twice. -/
theorem nodup_distinct (names : List String) : (distinct names).Nodup := by
  induction names with
  | nil => simp [distinct]
  | cons name rest ih =>
    refine List.nodup_cons.mpr ⟨?_, ih.filter _⟩
    simp

/-- Every child field is searched once. -/
theorem nodup_childFields (fields : Fields) : (childFields fields).Nodup := by
  have hlisted : ∀ row ∈ kindTable, row.2.Nodup := by decide
  unfold childFields
  split
  · next names h =>
    obtain ⟨kind, _, hkind⟩ := Option.bind_eq_some_iff.mp h
    exact hlisted _ (mem_kindTable hkind)
  · exact nodup_distinct _

/-- The way back is never searched. -/
theorem parentField_not_mem_childFields (fields : Fields) :
    parentField ∉ childFields fields := by
  unfold childFields
  split
  · next names h =>
    obtain ⟨kind, _, hkind⟩ := Option.bind_eq_some_iff.mp h
    exact parentField_not_mem_listedFields hkind
  · intro h
    have := List.mem_filter.mp (mem_distinct.mp h)
    simp at this

/-- What a field holds as a child is a node. -/
theorem isNode_of_mem_fieldEdges {field : String} {value : Value} {e : Edge}
    (h : e ∈ fieldEdges field value) : isNode e.child := by
  unfold fieldEdges at h
  split at h
  · simp only [itemEdges, List.mem_filterMap] at h
    obtain ⟨⟨item, i⟩, _, h⟩ := h
    split at h
    · next hnode => simp at h; simpa [← h] using hnode
    · simp at h
  · split at h
    · next hnode => simp at h; simpa [h] using hnode
    · simp at h

/-- What a field holds as a child is no larger than the value of the field. -/
theorem sizeOf_child_le {field : String} {value : Value} {e : Edge}
    (h : e ∈ fieldEdges field value) : sizeOf e.child ≤ sizeOf value := by
  unfold fieldEdges at h
  split at h
  · next items =>
    simp only [itemEdges, List.mem_filterMap] at h
    obtain ⟨⟨item, i⟩, hmem, h⟩ := h
    split at h
    · have hitem : item ∈ items := (List.mem_zipIdx' hmem).2 ▸ List.getElem_mem _
      simp at h
      subst h
      exact Nat.le_of_lt (sizeOf_lt_of_mem hitem)
    · simp at h
  · split at h
    · simp at h
      simp [h]
    · simp at h

/-- A child is a node. -/
theorem isNode_of_mem_edges {v : Value} {e : Edge} (h : e ∈ edges v) : isNode e.child := by
  cases v with
  | obj fields =>
    simp only [edges, List.mem_flatMap] at h
    obtain ⟨name, _, h⟩ := h
    exact isNode_of_mem_fieldEdges h
  | _ => simp [edges] at h

/-- A child is smaller than its node. -/
theorem sizeOf_child_lt {v : Value} {e : Edge} (h : e ∈ edges v) : sizeOf e.child < sizeOf v := by
  cases v with
  | obj fields =>
    simp only [edges, List.mem_flatMap] at h
    obtain ⟨name, _, h⟩ := h
    exact Nat.lt_of_le_of_lt (sizeOf_child_le h) (sizeOf_get_lt fields name)
  | _ => simp [edges] at h

/-! ## Size of a tree -/

/-- The counts of all members of a row, taken together. -/
def total {α : Type} (count : α → Nat) (row : List α) : Nat :=
  row.foldr (fun a sum => count a + sum) 0

@[simp] theorem total_nil {α : Type} (count : α → Nat) : total count [] = 0 := rfl

@[simp] theorem total_cons {α : Type} (count : α → Nat) (a : α) (row : List α) :
    total count (a :: row) = count a + total count row := rfl

theorem total_append {α : Type} (count : α → Nat) (row other : List α) :
    total count (row ++ other) = total count row + total count other := by
  induction row with
  | nil => simp
  | cons a row ih =>
    simp only [List.cons_append, total_cons, ih]
    omega

theorem total_map {α β : Type} (count : β → Nat) (f : α → β) (row : List α) :
    total count (row.map f) = total (fun a => count (f a)) row :=
  List.foldr_map

/-- The number of nodes of the tree below and including a value. -/
def nodeCount (v : Value) : Nat :=
  1 + total (fun e => nodeCount e.1.child) (edges v).attach
termination_by sizeOf v
decreasing_by exact sizeOf_child_lt e.2

theorem nodeCount_eq (v : Value) :
    nodeCount v = 1 + total (fun e => nodeCount e.child) (edges v) := by
  have hmap := total_map (fun e : Edge => nodeCount e.child) Subtype.val (edges v).attach
  rw [List.attach_map_subtype_val] at hmap
  rw [nodeCount, hmap]

end TreeLint.Syntax
