/-
  Linked trees.

  Linking rebuilds a tree with the way back of every node set.  It forgets what was there before: the
  linked tree is determined by the tree without its ways back, and linking it again changes nothing.
  In a linked tree each child leads back to the node that holds it, and the path of a node leads to the
  node.
-/
import Mathlib.Data.List.Flatten
import TreeLint.Proofs.Path
import TreeLint.Proofs.Rebuild
import TreeLint.Syntax.Function

set_option autoImplicit false

namespace TreeLint.Json.Fields

theorem put_put (fields : Fields) (key : String) (v w : Value) :
    put (put fields key v) key w = put fields key w := by
  induction fields with
  | nil => simp [put]
  | cons field rest ih =>
    obtain ⟨k, u⟩ := field
    by_cases hk : k = key
    · simp [put, hk]
    · simp [put, hk, ih]

end TreeLint.Json.Fields

namespace TreeLint.Syntax

open TreeLint.Json

/-! ## Setting the way back -/

/-- What the node at a path leads back to. -/
def wayBack : Path → Value
  | [] => .null
  | _ :: above => .link above

/-- The fields of the node at a path, with the way back set. -/
def hang (path : Path) (fields : Fields) : Fields :=
  Fields.put fields parentField (wayBack path)

/-- The fields of a node without the way back. -/
def dropParent (fields : Fields) : Fields :=
  fields.eraseP fun field => field.1 == parentField

/-- The fields of a node with the way back at the end, if there is one, and changed. -/
def settle (g : Value → Value) (fields : Fields) : Fields :=
  dropParent fields ++ ((fields.lookup parentField).map fun v => (parentField, g v)).toList

theorem touchesParent_put (v : Value) :
    TouchesParent fun fields => Fields.put fields parentField v where
  own fields := by
    induction fields with
    | nil => simp [Fields.put, ownFields]
    | cons field rest ih =>
      obtain ⟨k, w⟩ := field
      by_cases hk : k = parentField
      · simp [Fields.put, ownFields, hk]
      · rw [Fields.put, if_neg hk, ownFields, ownFields, List.filter_cons_of_pos (by simpa using hk),
          List.filter_cons_of_pos (by simpa using hk)]
        exact congrArg _ ih
  map fields f hparent := by
    induction fields with
    | nil => simp [Fields.put, hparent]
    | cons field rest ih =>
      obtain ⟨k, w⟩ := field
      by_cases hk : k = parentField
      · subst hk
        simp [Fields.put, hparent]
      · simp only [List.map_cons, Fields.put, if_neg hk, ih]

theorem touchesParent_hang (path : Path) : TouchesParent (hang path) :=
  touchesParent_put (wayBack path)

theorem touchesParent_dropParent : TouchesParent dropParent where
  own fields := by
    induction fields with
    | nil => rfl
    | cons field rest ih =>
      by_cases hk : field.1 = parentField
      · simp [dropParent, ownFields, hk]
      · have hne : (field.1 == parentField) = false := beq_false_of_ne hk
        rw [dropParent, List.eraseP_cons_of_neg (by simp [hne]), ownFields, ownFields,
          List.filter_cons_of_pos (by simpa using hk), List.filter_cons_of_pos (by simpa using hk)]
        exact congrArg _ ih
  map fields f _ := by
    rw [dropParent, List.eraseP_map]
    rfl

theorem touchesParent_settle (g : Value → Value) : TouchesParent (settle g) where
  own fields := by
    have hnone : ∀ v : Option Value,
        ownFields (v.map fun v => (parentField, g v)).toList = [] := by
      intro v
      cases v <;> simp [ownFields]
    have hrest := touchesParent_dropParent.own fields
    unfold ownFields at hrest hnone ⊢
    rw [settle, List.filter_append, hnone, List.append_nil, hrest]
  map fields f hparent := by
    rw [settle, settle, touchesParent_dropParent.map fields f hparent, lookup_map_fields, List.map_append]
    cases fields.lookup parentField <;> simp [hparent]

/-- Setting the way back and dropping it is dropping it. -/
theorem dropParent_put (fields : Fields) (v : Value) :
    dropParent (Fields.put fields parentField v) = dropParent fields := by
  induction fields with
  | nil => simp [Fields.put, dropParent]
  | cons field rest ih =>
    obtain ⟨k, w⟩ := field
    unfold dropParent at ih ⊢
    by_cases hk : k = parentField
    · simp [Fields.put, hk]
    · simp [Fields.put, hk, ih]

theorem settle_put (g : Value → Value) (fields : Fields) (v : Value) :
    settle g (Fields.put fields parentField v) = dropParent fields ++ [(parentField, g v)] := by
  rw [settle, dropParent_put, Fields.lookup_put_self]
  rfl

/-- Moving the way back keeps the number of fields. -/
theorem length_settle (g : Value → Value) (fields : Fields) :
    (settle g fields).length = fields.length := by
  induction fields with
  | nil => rfl
  | cons field rest ih =>
    obtain ⟨k, v⟩ := field
    unfold settle dropParent at ih ⊢
    by_cases hk : k = parentField
    · simp [hk]
    · have hne : (parentField == k) = false := beq_false_of_ne (Ne.symm hk)
      rw [List.eraseP_cons_of_neg (by simpa using hk), List.lookup_cons, hne, List.cons_append,
        List.length_cons, List.length_cons]
      exact congrArg (· + 1) ih

/-! ## Linking as rebuilding -/

mutual

theorem linkField_eq (path : Path) (field : String) :
    ∀ v, linkField path field v = rebuildField hang path field v
  | .arr items => by rw [linkField, rebuildField, linkItems_eq path field 0 items]
  | .obj fields => by
    rw [linkField, rebuildField, linkFields_eq (⟨field, none⟩ :: path) (childFields fields) fields]
    rfl
  | .null | .bool _ | .int _ | .float _ | .str _ | .link _ => by simp only [linkField, rebuildField]

theorem linkItems_eq (path : Path) (field : String) :
    ∀ i items, linkItems path field i items = rebuildItems hang path field i items
  | _, [] => by rw [linkItems, rebuildItems]
  | i, .obj fields :: rest => by
    rw [linkItems, rebuildItems, linkItems_eq path field (i + 1) rest,
      linkFields_eq (⟨field, some i⟩ :: path) (childFields fields) fields]
    rfl
  | i, .null :: rest | i, .bool _ :: rest | i, .int _ :: rest | i, .float _ :: rest
  | i, .str _ :: rest | i, .arr _ :: rest | i, .link _ :: rest => by
    simp only [linkItems, rebuildItems, linkItems_eq path field (i + 1) rest]

theorem linkFields_eq (path : Path) (names : List String) :
    ∀ fields, linkFields path names fields = rebuildFields hang path names fields
  | [] => by rw [linkFields, rebuildFields]
  | (name, value) :: rest => by
    rw [linkFields, rebuildFields, linkField_eq path name value, linkFields_eq path names rest]

end

/-- A tree can be linked when its root is a node. -/
theorem linkTree_eq {tree : Value} (h : isNode tree = true) :
    linkTree tree = .ok (rebuild hang [] tree) := by
  obtain ⟨fields, kind, rfl, hkind⟩ := isNode_iff.mp h
  rw [linkTree, hkind, rebuild_node hang [] h, linkNode, linkFields_eq]
  rfl

/-- What is linked to a node was one. -/
theorem isNode_of_linkTree {tree linked : Value} (h : linkTree tree = .ok linked)
    (hnode : isNode linked = true) : isNode tree = true := by
  cases tree with
  | obj fields =>
    obtain ⟨_, _, heq⟩ := bind_eq_ok_iff.mp h
    cases heq
    rwa [linkNode, linkFields_eq, isNode, kind?, Fields.get_put_of_ne _ _ (by decide),
      text?_type_rebuildFields] at hnode
  | _ => cases h

/-- The tree without the ways back of its nodes. -/
def bare (v : Value) : Value :=
  rebuild (fun _ => dropParent) [] v

/-- The tree with the ways back of its nodes, as far as they are there, at the end and changed. -/
def settled (g : Value → Value) (v : Value) : Value :=
  rebuild (fun _ => settle g) [] v

/-- A linked tree with its ways back at the end is made from the tree without them. -/
theorem settled_link (g : Value → Value) (path : Path) (v : Value) :
    settled g (rebuild hang path v) =
      rebuild (fun path fields => fields ++ [(parentField, g (wayBack path))]) path (bare v) := by
  have hsettle : (fun (path : Path) fields => settle g (hang path fields)) =
      fun path fields => dropParent fields ++ [(parentField, g (wayBack path))] := by
    funext path fields
    exact settle_put g fields _
  rw [settled, rebuild_const (settle g) [] path, rebuild_rebuild touchesParent_hang, hsettle, bare,
    rebuild_const dropParent [] path, rebuild_rebuild fun _ => touchesParent_dropParent]

/-- Where a tree is linked shows in nothing but its ways back. -/
theorem settled_null_link (path other : Path) (v : Value) :
    settled (fun _ => .null) (rebuild hang path v) =
      settled (fun _ => .null) (rebuild hang other v) := by
  rw [settled_link, settled_link]
  exact rebuild_const (fun fields => fields ++ [(parentField, .null)]) path other _

/-! ## Places -/

/-- The path of a child leads to the child. -/
theorem at?_child {root v : Value} {path : Path} (h : at? root path = some v) {e : Edge}
    (he : e ∈ edges v) : at? root (e.step :: path) = some e.child := by
  cases v with
  | obj fields =>
    obtain ⟨name, _, he⟩ := List.mem_flatMap.mp he
    have hlookup : ∀ {value}, Fields.get fields name = value → value ≠ .null →
        fields.lookup name = some value := lookup_of_get_eq
    rw [at?, h]
    generalize hvalue : Fields.get fields name = value at he
    unfold fieldEdges at he
    split at he
    · obtain ⟨⟨item, i⟩, hmem, heq⟩ := List.mem_filterMap.mp he
      dsimp only at heq
      split at heq
      · obtain rfl := Option.some.inj heq
        dsimp only
        rw [hlookup hvalue (fun h => by cases h)]
        exact List.mk_mem_zipIdx_iff_getElem?.mp hmem
      · cases heq
    · split at he
      · next hnode =>
        obtain rfl := List.mem_singleton.mp he
        have hnull : value ≠ .null := by
          rintro rfl
          cases hnode
        dsimp only
        rw [hlookup hvalue hnull]
      · cases he
  | _ => cases he

/-- The path of a node leads to the node. -/
theorem at?_of_mem_preorder {root v : Value} {path : Path} (h : at? root path = some v)
    {visit : Visit} (hvisit : visit ∈ preorder path v) : at? root visit.path = some visit.node := by
  induction path, v using preorder.induct with
  | case1 path v ih =>
    rcases mem_preorder_iff.mp hvisit with rfl | ⟨e, he, hbelow⟩
    · exact h
    · exact ih ⟨e, he⟩ (at?_child h he) hbelow

theorem isNode_of_mem_preorder {path : Path} {v : Value} (h : isNode v = true) {visit : Visit}
    (hvisit : visit ∈ preorder path v) : isNode visit.node = true := by
  have hchild : ∀ v, isNode v = true → ∀ e ∈ edges v, isNode e.child = true :=
    fun _ _ _ he => isNode_of_mem_edges he
  exact forall_mem_preorder (P := fun v => isNode v = true) hchild h hvisit

/-! ## Ways back -/

/-- Every child in the tree at a path leads back to the node that holds it. -/
def IsLinked (path : Path) (v : Value) : Prop :=
  ∀ visit ∈ preorder path v, ∀ e ∈ edges visit.node,
    e.child.require parentField = .ok (.link visit.path)

theorem IsLinked.child {path : Path} {v : Value} (h : IsLinked path v) {e : Edge} (he : e ∈ edges v) :
    IsLinked (e.step :: path) e.child :=
  fun visit hvisit => h visit (mem_preorder_of_child he hvisit)

theorem require_parent_link (path : Path) {v : Value} (h : isNode v = true) :
    (rebuild hang path v).require parentField = .ok (wayBack path) := by
  obtain ⟨fields, _, rfl, _⟩ := isNode_iff.mp h
  rw [rebuild_node hang path h, Value.require, hang, Fields.lookup_put_self]

/-- A tree is linked by linking it. -/
theorem isLinked_link (path : Path) {v : Value} (h : isNode v = true) :
    IsLinked path (rebuild hang path v) := by
  intro visit hvisit e he
  rw [preorder_rebuild touchesParent_hang path h] at hvisit
  obtain ⟨original, horiginal, rfl⟩ := List.mem_map.mp hvisit
  rw [edges_rebuild touchesParent_hang _ (isNode_of_mem_preorder h horiginal)] at he
  obtain ⟨below, hbelow, rfl⟩ := List.mem_map.mp he
  exact require_parent_link (below.step :: original.path) (isNode_of_mem_edges hbelow)

/-- What can be linked is an object with a `type` that can be looked up, and its fields are rebuilt. -/
theorem exists_fields_of_linkTree {tree program : Value} (h : linkTree tree = .ok program) :
    ∃ fields, tree = .obj fields ∧ (Fields.get fields "type").isKey = true ∧
      program = .obj (hang [] (rebuildFields hang [] (childFields fields) fields)) := by
  cases tree with
  | obj fields =>
    obtain ⟨_, hkey, heq⟩ := bind_eq_ok_iff.mp h
    cases heq
    refine ⟨fields, rfl, ?_, by rw [linkNode, linkFields_eq]; rfl⟩
    unfold Value.key at hkey
    split at hkey
    · assumption
    · cases hkey
  | _ => cases h

/-- In a tree that was linked each child leads back to the node that holds it. -/
theorem isLinked_of_linkTree {tree program : Value} (h : linkTree tree = .ok program) :
    IsLinked [] program := by
  obtain ⟨fields, rfl, _, rfl⟩ := exists_fields_of_linkTree h
  intro visit hvisit e he
  rcases mem_preorder_iff.mp hvisit with rfl | ⟨above, habove, hbelow⟩
  · rw [edges_rebuilt touchesParent_hang] at he
    obtain ⟨child, hchild, rfl⟩ := List.mem_map.mp he
    exact require_parent_link [child.step] (isNode_of_mem_edges hchild)
  · rw [edges_rebuilt touchesParent_hang] at habove
    obtain ⟨child, hchild, rfl⟩ := List.mem_map.mp habove
    exact isLinked_link [child.step] (isNode_of_mem_edges hchild) visit hbelow e he

/-- Nothing leads back from the root, so that no export declares it. -/
theorem isExportedDirectly_root {tree : Value} (h : isNode tree = true) :
    isExportedDirectly (rebuild hang [] tree) [] (rebuild hang [] tree) = .ok false := by
  obtain ⟨fields, _, rfl, _⟩ := isNode_iff.mp h
  rw [isExportedDirectly, rebuild_node hang [] h, Value.get, ok_bind, hang, Fields.get_put_self]
  rfl

/-- In a linked tree, a child is what an export declares when it stands in the declaration of an
export. -/
theorem isExportedDirectly_child {root v child : Value} {path : Path} (hat : at? root path = some v)
    (step : Step) (hparent : child.require parentField = .ok (.link path)) :
    isExportedDirectly root (step :: path) child =
      .ok ((isKind v "ExportNamedDeclaration" || isKind v "ExportDefaultDeclaration") &&
        step == ⟨"declaration", none⟩) := by
  have hget : child.get parentField = .ok (.link path) := by
    unfold Value.require at hparent
    split at hparent
    · split at hparent
      · next value hlookup =>
        cases hparent
        rw [Value.get, Fields.get, hlookup, Option.getD_some]
      · cases hparent
    · cases hparent
  rw [isExportedDirectly, hget, ok_bind]
  dsimp only
  rw [hat, Option.getD_some, List.cons_beq_cons, beq_self_eq_true, Bool.and_true]
  rfl

end TreeLint.Syntax
