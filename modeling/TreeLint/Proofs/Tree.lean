/-
  The nodes of a tree.

  A node stands in a tree when it is the root or stands in the tree of one of the root's children; the
  walk over the tree visits these nodes and no others.
-/
import TreeLint.Proofs.Outcome
import TreeLint.Proofs.Shape
import TreeLint.Syntax.Walk

set_option autoImplicit false

namespace TreeLint.Syntax

open TreeLint.Json

/-- A node is in its own tree. -/
theorem self_mem_preorder (path : Path) (v : Value) : ⟨path, v⟩ ∈ preorder path v := by
  rw [preorder_eq]
  exact List.mem_cons_self

/-- What is in the tree of a child is in the tree. -/
theorem mem_preorder_of_child {path : Path} {v : Value} {e : Edge} {visit : Visit}
    (he : e ∈ edges v) (h : visit ∈ preorder (e.step :: path) e.child) : visit ∈ preorder path v := by
  rw [preorder_eq]
  exact List.mem_cons_of_mem _ (List.mem_flatMap.mpr ⟨e, he, h⟩)

/-- What is in a tree is its root, or in the tree of a child. -/
theorem mem_preorder_iff {path : Path} {v : Value} {visit : Visit} :
    visit ∈ preorder path v ↔
      visit = ⟨path, v⟩ ∨ ∃ e ∈ edges v, visit ∈ preorder (e.step :: path) e.child := by
  rw [preorder_eq, List.mem_cons, List.mem_flatMap]

/-- A property that children take from their nodes holds everywhere in a tree when it holds at the root. -/
theorem forall_mem_preorder {P : Value → Prop} (hchild : ∀ v, P v → ∀ e ∈ edges v, P e.child)
    {path : Path} {v : Value} (h : P v) {visit : Visit} (hvisit : visit ∈ preorder path v) :
    P visit.node := by
  induction path, v using preorder.induct with
  | case1 path v ih =>
    rcases mem_preorder_iff.mp hvisit with rfl | ⟨e, he, hbelow⟩
    · exact h
    · exact ih ⟨e, he⟩ (hchild v h e he) hbelow

/-- The children of a node of a tree are nodes of the tree. -/
theorem child_mem_preorder {path : Path} {v : Value} {visit : Visit} {e : Edge}
    (h : visit ∈ preorder path v) (he : e ∈ edges visit.node) :
    ⟨e.step :: visit.path, e.child⟩ ∈ preorder path v := by
  induction path, v using preorder.induct with
  | case1 path v ih =>
    rcases mem_preorder_iff.mp h with rfl | ⟨e', he', hbelow⟩
    · exact mem_preorder_of_child he (self_mem_preorder _ _)
    · exact mem_preorder_of_child he' (ih ⟨e', he'⟩ hbelow)

/-- Which nodes are in a tree does not depend on where the tree stands. -/
theorem map_node_preorder (path other : Path) (v : Value) :
    (preorder path v).map Visit.node = (preorder other v).map Visit.node := by
  induction path, v using preorder.induct generalizing other with
  | case1 path v ih =>
    rw [preorder_eq, preorder_eq, List.map_cons, List.map_cons, List.map_flatMap, List.map_flatMap]
    exact congrArg (v :: ·) (List.flatMap_congr fun e he => ih ⟨e, he⟩ (e.step :: other))

/-- All nodes of the tree have the property. -/
def Everywhere (P : Value → Prop) (root : Value) : Prop :=
  ∀ visit ∈ preorder [] root, P visit.node

theorem everywhere_iff_from (path : Path) {P : Value → Prop} {v : Value} :
    Everywhere P v ↔ ∀ visit ∈ preorder path v, P visit.node := by
  have hnodes := map_node_preorder [] path v
  rw [Everywhere, ← List.forall_mem_map (P := P), hnodes, List.forall_mem_map]

/-- All nodes of a tree have a property when the root has it and those of the trees of its children. -/
theorem everywhere_iff {P : Value → Prop} {root : Value} :
    Everywhere P root ↔ P root ∧ ∀ e ∈ edges root, Everywhere P e.child := by
  constructor
  · intro h
    refine ⟨h _ (self_mem_preorder [] root), fun e he => (everywhere_iff_from [e.step]).mpr ?_⟩
    exact fun visit hvisit => h visit (mem_preorder_of_child he hvisit)
  · rintro ⟨hroot, hchildren⟩ visit hvisit
    rcases mem_preorder_iff.mp hvisit with rfl | ⟨e, he, hbelow⟩
    · exact hroot
    · exact (everywhere_iff_from [e.step]).mp (hchildren e he) visit hbelow

/-- Where a root can be asked for its children, the walk over its tree visits the nodes of the tree. -/
theorem walk_eq (root : Value) :
    walk root = checkedEdges root >>= fun _ => .ok (preorder [] root) := by
  rw [walk, traverse_eq_flatMap_preorder]
  simp

/-! ## What is reached -/

/-- The node at a path is reached from the root, child by child. -/
inductive Reaches (root : Value) : Path → Value → Prop
  /-- The root. -/
  | root : Reaches root [] root
  /-- A child of a node that is reached. -/
  | child {path : Path} {v : Value} {e : Edge} (h : Reaches root path v) (he : e ∈ edges v) :
    Reaches root (e.step :: path) e.child

theorem Reaches.of_mem_preorder {root v : Value} {path : Path} (h : Reaches root path v)
    {visit : Visit} (hvisit : visit ∈ preorder path v) : Reaches root visit.path visit.node := by
  induction path, v using preorder.induct with
  | case1 path v ih =>
    rcases mem_preorder_iff.mp hvisit with rfl | ⟨e, he, hbelow⟩
    · exact h
    · exact ih ⟨e, he⟩ (h.child he) hbelow

/-- The nodes of a tree are those that are reached from its root. -/
theorem mem_preorder_iff_reaches {root node : Value} {path : Path} :
    ⟨path, node⟩ ∈ preorder [] root ↔ Reaches root path node := by
  constructor
  · intro hvisit
    exact Reaches.root.of_mem_preorder hvisit
  · intro h
    induction h with
    | root => exact self_mem_preorder [] root
    | child _ he ih => exact child_mem_preorder ih he

/-- What is below a node has a longer path. -/
theorem suffix_of_mem_preorder {path : Path} {v : Value} {visit : Visit}
    (h : visit ∈ preorder path v) : path <:+ visit.path := by
  induction path, v using preorder.induct with
  | case1 path v ih =>
    rcases mem_preorder_iff.mp h with rfl | ⟨e, he, hbelow⟩
    · exact List.suffix_refl path
    · exact (List.suffix_cons e.step path).trans (ih ⟨e, he⟩ hbelow)

/-! ## The statements of a program -/

/-- The children in a list are the nodes among its items, each in its place. -/
theorem mem_fieldEdges_arr_iff {field : String} {items : List Value} {e : Edge} :
    e ∈ fieldEdges field (.arr items) ↔
      ∃ i item, items[i]? = some item ∧ isNode item = true ∧ e = ⟨⟨field, some i⟩, item⟩ := by
  simp only [fieldEdges, itemEdges, List.mem_filterMap, Prod.exists, List.mk_mem_zipIdx_iff_getElem?]
  constructor
  · rintro ⟨item, i, hitem, heq⟩
    split at heq
    · next hnode => exact ⟨i, item, hitem, hnode, (Option.some.inj heq).symm⟩
    · cases heq
  · rintro ⟨i, item, hitem, hnode, rfl⟩
    exact ⟨item, i, hitem, if_pos hnode⟩

/-- The children of a program are its statements, each in its place. -/
theorem mem_edges_program_iff {fields : Fields} {statements : List Value} {e : Edge}
    (hkind : isKind (.obj fields) "Program" = true)
    (hbody : Fields.get fields "body" = .arr statements) :
    e ∈ edges (.obj fields) ↔ ∃ i s, statements[i]? = some s ∧ isNode s = true ∧
      e = ⟨⟨"body", some i⟩, s⟩ := by
  have hfields : childFields fields = ["body"] :=
    childFields_of_kind (isKind_obj_iff.mp hkind) (by decide)
  rw [edges, hfields, List.flatMap_singleton, hbody]
  exact mem_fieldEdges_arr_iff

end TreeLint.Syntax
