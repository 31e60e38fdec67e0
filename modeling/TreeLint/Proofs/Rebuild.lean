/-
  Rebuilding a tree from below.

  A tree is rebuilt by giving each of its nodes new fields, those of the nodes below it first; linking
  is one case.  As long as the fields change in the way back alone, the rebuilt tree has the same kinds
  and the same children in the same places, and it is walked in the same order.  Rebuilding a tree
  twice then is rebuilding it once.
-/
import TreeLint.Proofs.Tree

set_option autoImplicit false

namespace TreeLint.Syntax

open TreeLint.Json

mutual

/-- The value of a child field of the node at `path`, with the nodes in it rebuilt. -/
def rebuildField (finish : Path → Fields → Fields) (path : Path) (field : String) : Value → Value
  | .arr items => .arr (rebuildItems finish path field 0 items)
  | .obj fields =>
    if isNode (.obj fields) then
      .obj (finish (⟨field, none⟩ :: path)
        (rebuildFields finish (⟨field, none⟩ :: path) (childFields fields) fields))
    else .obj fields
  | v => v

/-- The items of a child field from place `i` on, with the nodes among them rebuilt. -/
def rebuildItems (finish : Path → Fields → Fields) (path : Path) (field : String) :
    Nat → List Value → List Value
  | _, [] => []
  | i, .obj fields :: rest =>
    (if isNode (.obj fields) then
      .obj (finish (⟨field, some i⟩ :: path)
        (rebuildFields finish (⟨field, some i⟩ :: path) (childFields fields) fields))
    else .obj fields) :: rebuildItems finish path field (i + 1) rest
  | i, item :: rest => item :: rebuildItems finish path field (i + 1) rest

/-- The fields of the node at `path`, with the nodes in the named ones rebuilt. -/
def rebuildFields (finish : Path → Fields → Fields) (path : Path) (names : List String) :
    List (String × Value) → List (String × Value)
  | [] => []
  | (name, value) :: rest =>
    (name, if names.contains name then rebuildField finish path name value else value) ::
      rebuildFields finish path names rest

end

/-- The node at `path`, rebuilt with everything below it; what is no node stays as it is. -/
def rebuild (finish : Path → Fields → Fields) (path : Path) : Value → Value
  | .obj fields =>
    if isNode (.obj fields) then
      .obj (finish path (rebuildFields finish path (childFields fields) fields))
    else .obj fields
  | v => v

section Equations

variable (finish : Path → Fields → Fields) (path : Path) (field : String)

theorem rebuild_node {fields : Fields} (h : isNode (.obj fields) = true) :
    rebuild finish path (.obj fields) =
      .obj (finish path (rebuildFields finish path (childFields fields) fields)) := by
  rw [rebuild, if_pos h]

theorem rebuild_of_not_node {v : Value} (h : isNode v = false) : rebuild finish path v = v := by
  cases v with
  | obj fields => rw [rebuild, if_neg (by rw [h]; exact Bool.false_ne_true)]
  | _ => rfl

theorem rebuildItems_eq (i : Nat) (items : List Value) :
    rebuildItems finish path field i items =
      (items.zipIdx i).map fun item => rebuild finish (⟨field, some item.2⟩ :: path) item.1 := by
  induction items generalizing i with
  | nil => simp [rebuildItems]
  | cons item rest ih =>
    rw [List.zipIdx_cons, List.map_cons, ← ih]
    cases item with
    | obj fields => simp only [rebuildItems, rebuild]
    | _ => simp only [rebuildItems, rebuild]

theorem rebuildField_arr (items : List Value) :
    rebuildField finish path field (.arr items) = .arr (items.zipIdx.map fun item =>
      rebuild finish (⟨field, some item.2⟩ :: path) item.1) := by
  rw [rebuildField, rebuildItems_eq]

theorem rebuildField_of_not_arr {v : Value} (h : ∀ items, v ≠ .arr items) :
    rebuildField finish path field v = rebuild finish (⟨field, none⟩ :: path) v := by
  cases v with
  | arr items => exact absurd rfl (h items)
  | obj fields => simp only [rebuildField, rebuild]
  | _ => simp only [rebuildField, rebuild]

/-- Lists are not made by rebuilding. -/
theorem rebuild_ne_arr {v : Value} (h : ∀ items, v ≠ .arr items) (items : List Value) :
    rebuild finish path v ≠ .arr items := by
  intro heq
  unfold rebuild at heq
  split at heq
  · split at heq <;> cases heq
  · exact h items heq

theorem rebuildFields_eq (names : List String) (fields : Fields) :
    rebuildFields finish path names fields = fields.map fun field =>
      (field.1, if names.contains field.1 then rebuildField finish path field.1 field.2
        else field.2) := by
  induction fields with
  | nil => simp [rebuildFields]
  | cons field rest ih => rw [rebuildFields, ih, List.map_cons]

theorem map_fst_rebuildFields (names : List String) (fields : Fields) :
    (rebuildFields finish path names fields).map Prod.fst = fields.map Prod.fst := by
  rw [rebuildFields_eq, List.map_map]
  rfl

theorem text?_rebuildField (v : Value) : (rebuildField finish path field v).text? = v.text? := by
  cases v with
  | obj fields =>
    simp only [rebuildField]
    split <;> rfl
  | arr items =>
    rw [rebuildField]
    rfl
  | _ => simp only [rebuildField]

/-- What is neither a list nor an object is not rebuilt. -/
theorem rebuildField_null : rebuildField finish path field .null = .null := by
  simp only [rebuildField]

end Equations

/-- Items that change in their places are counted as before. -/
theorem zipIdx_map_zipIdx {α β : Type} (f : α × Nat → β) (items : List α) (i : Nat) :
    ((items.zipIdx i).map f).zipIdx i = (items.zipIdx i).map fun item => (f item, item.2) := by
  induction items generalizing i with
  | nil => rfl
  | cons item rest ih => rw [List.zipIdx_cons, List.map_cons, List.zipIdx_cons, ih, List.map_cons]

/-- What a field holds after its value has been changed by a function of the name. -/
theorem lookup_map_fields (fields : Fields) (f : String → Value → Value) (key : String) :
    (fields.map fun field => (field.1, f field.1 field.2)).lookup key =
      (fields.lookup key).map (f key) := by
  induction fields with
  | nil => rfl
  | cons field rest ih =>
    obtain ⟨k, v⟩ := field
    rw [List.map_cons, List.lookup_cons, List.lookup_cons]
    cases hk : key == k with
    | true =>
      rw [eq_of_beq hk]
      rfl
    | false => exact ih

theorem lookup_rebuildFields (finish : Path → Fields → Fields) (path : Path) (names : List String)
    (fields : Fields) (key : String) :
    (rebuildFields finish path names fields).lookup key = (fields.lookup key).map fun v =>
      if names.contains key then rebuildField finish path key v else v := by
  rw [rebuildFields_eq, lookup_map_fields fields
    fun name v => if names.contains name then rebuildField finish path name v else v]

/-- The fields of a node under rebuilding, as far as they are looked up. -/
theorem get_rebuildFields (finish : Path → Fields → Fields) (path : Path) (names : List String)
    (fields : Fields) (key : String) :
    Fields.get (rebuildFields finish path names fields) key =
      if names.contains key then rebuildField finish path key (Fields.get fields key)
      else Fields.get fields key := by
  unfold Fields.get
  rw [lookup_rebuildFields]
  cases fields.lookup key with
  | none => simp [rebuildField_null]
  | some v => rfl

theorem text?_type_rebuildFields (finish : Path → Fields → Fields) (path : Path) (names : List String)
    (fields : Fields) :
    (Fields.get (rebuildFields finish path names fields) "type").text? =
      (Fields.get fields "type").text? := by
  rw [get_rebuildFields]
  split
  · exact text?_rebuildField finish path "type" _
  · rfl

/-! ## Changes of the way back -/

/-- The fields other than the way back. -/
def ownFields (fields : Fields) : Fields :=
  fields.filter fun field => decide (field.1 ≠ parentField)

theorem lookup_ownFields (fields : Fields) {key : String} (h : key ≠ parentField) :
    (ownFields fields).lookup key = fields.lookup key := by
  induction fields with
  | nil => rfl
  | cons field rest ih =>
    obtain ⟨k, v⟩ := field
    unfold ownFields at ih ⊢
    rw [List.lookup_cons]
    by_cases hk : k = parentField
    · have hne : (key == k) = false := beq_false_of_ne fun heq => h (heq.trans hk)
      rw [List.filter_cons_of_neg (by simpa using hk), hne, ih]
    · rw [List.filter_cons_of_pos (by simpa using hk), List.lookup_cons, ih]

/-- The change of fields touches the way back alone, and what it does there does not depend on the
other fields. -/
structure TouchesParent (change : Fields → Fields) : Prop where
  /-- The other fields stay, in their order. -/
  own (fields : Fields) : ownFields (change fields) = ownFields fields
  /-- It does not matter whether the other fields change before or after. -/
  map (fields : Fields) (f : String → Value → Value) (parent : ∀ v, f parentField v = v) :
    change (fields.map fun field => (field.1, f field.1 field.2)) =
      (change fields).map fun field => (field.1, f field.1 field.2)

namespace TouchesParent

variable {change : Fields → Fields} (h : TouchesParent change) (fields : Fields)

include h

theorem lookup_eq {key : String} (hkey : key ≠ parentField) :
    (change fields).lookup key = fields.lookup key := by
  rw [← lookup_ownFields (change fields) hkey, h.own, lookup_ownFields fields hkey]

theorem get_eq {key : String} (hkey : key ≠ parentField) :
    Fields.get (change fields) key = Fields.get fields key := by
  rw [Fields.get, Fields.get, h.lookup_eq fields hkey]

theorem childFields_eq : childFields (change fields) = childFields fields := by
  have hkeys : ∀ row : Fields, (row.map Prod.fst).filter (fun name => decide (name ≠ parentField)) =
      (ownFields row).map Prod.fst := by
    intro row
    rw [List.filter_map]
    rfl
  unfold childFields
  rw [h.get_eq fields (by decide), hkeys, hkeys, h.own]

end TouchesParent

/-! ## Kinds and children -/

theorem fieldEdges_of_not_arr (field : String) {v : Value} (h : ∀ items, v ≠ .arr items) :
    fieldEdges field v = if isNode v then [⟨⟨field, none⟩, v⟩] else [] := by
  cases v with
  | arr items => exact absurd rfl (h items)
  | _ => rfl

section Children

variable {finish : Path → Fields → Fields} (hfinish : ∀ path, TouchesParent (finish path))

include hfinish

/-- A field of a rebuilt node other than the way back: rebuilt if it holds children, else as it was. -/
theorem get_rebuilt (path : Path) (fields : Fields) {key : String} (hkey : key ≠ parentField) :
    Fields.get (finish path (rebuildFields finish path (childFields fields) fields)) key =
      if (childFields fields).contains key then rebuildField finish path key (Fields.get fields key)
      else Fields.get fields key := by
  rw [(hfinish path).get_eq _ hkey, get_rebuildFields]

/-- Rebuilding keeps kinds. -/
theorem kind?_rebuild (path : Path) (v : Value) : kind? (rebuild finish path v) = kind? v := by
  cases hnode : isNode v with
  | false => rw [rebuild_of_not_node finish path hnode]
  | true =>
    obtain ⟨fields, _, rfl, _⟩ := isNode_iff.mp hnode
    rw [rebuild_node finish path hnode, kind?, kind?, (hfinish path).get_eq _ (by decide),
      text?_type_rebuildFields]

theorem isNode_rebuild (path : Path) (v : Value) : isNode (rebuild finish path v) = isNode v := by
  rw [isNode, isNode, kind?_rebuild hfinish]

theorem childFields_rebuilt (path : Path) (fields : Fields) :
    childFields (finish path (rebuildFields finish path (childFields fields) fields)) =
      childFields fields := by
  have hkeys : ∀ names, childFields (rebuildFields finish path names fields) = childFields fields := by
    intro names
    rw [childFields, childFields, text?_type_rebuildFields, map_fst_rebuildFields]
  rw [(hfinish path).childFields_eq, hkeys]

theorem itemEdges_rebuilt (path : Path) (field : String) (items : List Value) :
    itemEdges field (items.zipIdx.map fun item =>
        rebuild finish (⟨field, some item.2⟩ :: path) item.1) =
      (itemEdges field items).map fun e => ⟨e.step, rebuild finish (e.step :: path) e.child⟩ := by
  rw [itemEdges, itemEdges, zipIdx_map_zipIdx, List.filterMap_map, List.map_filterMap]
  congr 1
  funext item
  simp only [Function.comp_apply, isNode_rebuild hfinish]
  split <;> rfl

/-- The children in a rebuilt field are the rebuilt children, in the same places. -/
theorem fieldEdges_rebuildField (path : Path) (field : String) (v : Value) :
    fieldEdges field (rebuildField finish path field v) =
      (fieldEdges field v).map fun e => ⟨e.step, rebuild finish (e.step :: path) e.child⟩ := by
  by_cases harr : ∃ items, v = .arr items
  · obtain ⟨items, rfl⟩ := harr
    rw [rebuildField_arr, fieldEdges, fieldEdges]
    exact itemEdges_rebuilt hfinish path field items
  · have hv : ∀ items, v ≠ .arr items := fun items heq => harr ⟨items, heq⟩
    rw [rebuildField_of_not_arr finish path field hv,
      fieldEdges_of_not_arr field (rebuild_ne_arr finish _ hv), fieldEdges_of_not_arr field hv,
      isNode_rebuild hfinish]
    split <;> rfl

/-- The children in rebuilt fields are the rebuilt children, in the same places. -/
theorem edges_rebuilt (path : Path) (fields : Fields) :
    edges (.obj (finish path (rebuildFields finish path (childFields fields) fields))) =
      (edges (.obj fields)).map fun e => ⟨e.step, rebuild finish (e.step :: path) e.child⟩ := by
  rw [edges, edges, childFields_rebuilt hfinish, List.map_flatMap]
  refine List.flatMap_congr fun name hname => ?_
  have hne : name ≠ parentField := fun heq => parentField_not_mem_childFields fields (heq ▸ hname)
  rw [get_rebuilt hfinish path fields hne, if_pos (List.contains_iff_mem.mpr hname)]
  exact fieldEdges_rebuildField hfinish path name _

/-- The children of a rebuilt node are the rebuilt children, in the same places. -/
theorem edges_rebuild (path : Path) {v : Value} (h : isNode v = true) :
    edges (rebuild finish path v) =
      (edges v).map fun e => ⟨e.step, rebuild finish (e.step :: path) e.child⟩ := by
  obtain ⟨fields, _, rfl, _⟩ := isNode_iff.mp h
  rw [rebuild_node finish path h]
  exact edges_rebuilt hfinish path fields

/-- The nodes of a rebuilt tree are the rebuilt nodes, in the same places and the same order. -/
theorem preorder_rebuild (path : Path) {v : Value} (h : isNode v = true) :
    preorder path (rebuild finish path v) =
      (preorder path v).map fun visit => ⟨visit.path, rebuild finish visit.path visit.node⟩ := by
  induction path, v using preorder.induct with
  | case1 path v ih =>
    rw [preorder_eq, preorder_eq path v, edges_rebuild hfinish path h, List.map_cons, List.map_flatMap,
      List.flatMap_map]
    refine congrArg (_ :: ·) (List.flatMap_congr fun e he => ?_)
    exact ih ⟨e, he⟩ (isNode_of_mem_edges he)

end Children

/-! ## Rebuilding twice -/

theorem sizeOf_le_of_mem_zipIdx {items : List Value} {item : Value × Nat} (h : item ∈ items.zipIdx) :
    sizeOf item.1 ≤ sizeOf (Value.arr items) :=
  Nat.le_of_lt (sizeOf_lt_of_mem (List.fst_mem_of_mem_zipIdx h))

/-- The places do not matter to a field that is rebuilt without regard to them, if they do not matter to
what it holds. -/
theorem rebuildField_const_of {change : Fields → Fields} {v : Value}
    (h : ∀ path other w, sizeOf w ≤ sizeOf v →
      rebuild (fun _ => change) path w = rebuild (fun _ => change) other w)
    (path other : Path) (field field' : String) :
    rebuildField (fun _ => change) path field v = rebuildField (fun _ => change) other field' v := by
  by_cases harr : ∃ items, v = .arr items
  · obtain ⟨items, rfl⟩ := harr
    rw [rebuildField_arr, rebuildField_arr]
    refine congrArg Value.arr (List.map_congr_left fun item hitem => ?_)
    exact h _ _ item.1 (sizeOf_le_of_mem_zipIdx hitem)
  · have hv : ∀ items, v ≠ .arr items := fun items heq => harr ⟨items, heq⟩
    rw [rebuildField_of_not_arr _ path field hv, rebuildField_of_not_arr _ other field' hv]
    exact h _ _ v (Nat.le_refl _)

/-- The places do not matter to a tree that is rebuilt without regard to them. -/
theorem rebuild_const (change : Fields → Fields) (path other : Path) (v : Value) :
    rebuild (fun _ => change) path v = rebuild (fun _ => change) other v := by
  induction hsize : sizeOf v using Nat.strongRecOn generalizing v path other with
  | ind size ih =>
    cases hnode : isNode v with
    | false => rw [rebuild_of_not_node _ _ hnode, rebuild_of_not_node _ _ hnode]
    | true =>
      obtain ⟨fields, _, rfl, _⟩ := isNode_iff.mp hnode
      rw [rebuild_node _ _ hnode, rebuild_node _ _ hnode, rebuildFields_eq, rebuildFields_eq]
      refine congrArg (fun row => Value.obj (change row)) (List.map_congr_left fun field hfield => ?_)
      have hsmaller : sizeOf field.2 < sizeOf (Value.obj fields) := sizeOf_lt_of_mem_fields hfield
      rw [rebuildField_const_of (fun p q w hw => ih _ (hsize ▸ Nat.lt_of_le_of_lt hw hsmaller) p q w rfl)
        path other field.1 field.1]

theorem rebuildField_const (change : Fields → Fields) (path other : Path) (field field' : String)
    (v : Value) :
    rebuildField (fun _ => change) path field v = rebuildField (fun _ => change) other field' v :=
  rebuildField_const_of (fun p q w _ => rebuild_const change p q w) path other field field'

section Twice

variable {finish finish' : Path → Fields → Fields}

theorem rebuildField_rebuildField {path : Path} {field : String} {v : Value}
    (h : ∀ step w, sizeOf w ≤ sizeOf v →
      rebuild finish' (step :: path) (rebuild finish (step :: path) w) =
        rebuild (fun path fields => finish' path (finish path fields)) (step :: path) w) :
    rebuildField finish' path field (rebuildField finish path field v) =
      rebuildField (fun path fields => finish' path (finish path fields)) path field v := by
  by_cases harr : ∃ items, v = .arr items
  · obtain ⟨items, rfl⟩ := harr
    rw [rebuildField_arr, rebuildField_arr, rebuildField_arr]
    rw [zipIdx_map_zipIdx, List.map_map]
    refine congrArg Value.arr (List.map_congr_left fun item hitem => ?_)
    exact h _ item.1 (sizeOf_le_of_mem_zipIdx hitem)
  · have hv : ∀ items, v ≠ .arr items := fun items heq => harr ⟨items, heq⟩
    rw [rebuildField_of_not_arr finish path field hv,
      rebuildField_of_not_arr finish' path field (rebuild_ne_arr finish _ hv),
      rebuildField_of_not_arr _ path field hv]
    exact h _ v (Nat.le_refl _)

/-- A tree that is rebuilt twice is rebuilt once, with both changes at each node. -/
theorem rebuild_rebuild (hfinish : ∀ path, TouchesParent (finish path)) (path : Path) (v : Value) :
    rebuild finish' path (rebuild finish path v) =
      rebuild (fun path fields => finish' path (finish path fields)) path v := by
  induction hsize : sizeOf v using Nat.strongRecOn generalizing v path with
  | ind size ih =>
    cases hnode : isNode v with
    | false => rw [rebuild_of_not_node _ _ hnode, rebuild_of_not_node _ _ hnode,
        rebuild_of_not_node _ _ hnode]
    | true =>
      have hagain := isNode_rebuild hfinish path v
      obtain ⟨fields, _, rfl, _⟩ := isNode_iff.mp hnode
      rw [hnode] at hagain
      rw [rebuild_node _ _ hnode] at hagain ⊢
      rw [rebuild_node _ _ hagain, rebuild_node _ _ hnode, childFields_rebuilt hfinish,
        rebuildFields_eq finish', rebuildFields_eq finish]
      have hparent : ∀ w, (if (childFields fields).contains parentField then
          rebuildField finish' path parentField w else w) = w := by
        intro w
        refine if_neg fun hmem => parentField_not_mem_childFields fields ?_
        exact List.contains_iff_mem.mp hmem
      -- The children can be rebuilt once more before the way back of the node changes.
      rw [← (hfinish path).map _ (fun name w => if (childFields fields).contains name then
        rebuildField finish' path name w else w) hparent, rebuildFields_eq, List.map_map]
      refine congrArg (fun row => Value.obj (finish' path (finish path row)))
        (List.map_congr_left fun field hfield => ?_)
      have hsmaller : sizeOf field.2 < sizeOf (Value.obj fields) := sizeOf_lt_of_mem_fields hfield
      rw [Function.comp_apply]
      split
      · refine congrArg (field.1, ·) (rebuildField_rebuildField fun step w hw => ?_)
        exact ih _ (hsize ▸ Nat.lt_of_le_of_lt hw hsmaller) _ w rfl
      · rfl

end Twice

end TreeLint.Syntax
