/-
  Linking in place.

  The loop that links a tree goes from pending place to pending place and sets the ways back of the
  children there.  While it runs the tree is always the given one with some of its ways back set, and
  the places that are not set yet are below pending ones.  So it ends with the tree that is built by
  recursion, provided that no object has two fields of one name; documents that are read have none.
-/
import TreeLint.Proofs.Linking
import TreeLint.Proofs.Objects

set_option autoImplicit false

namespace TreeLint.Json.Fields

/-- Where names are distinct, setting a field that is there changes the value under its name alone. -/
theorem put_eq_map {fields : Fields} (h : (fields.map Prod.fst).Nodup) {key : String}
    (hkey : key ∈ fields.map Prod.fst) (v : Value) :
    put fields key v = fields.map fun field => (field.1, if field.1 = key then v else field.2) := by
  induction fields with
  | nil => cases hkey
  | cons first rest ih =>
    obtain ⟨k, u⟩ := first
    obtain ⟨hfirst, hrest⟩ := List.nodup_cons.mp h
    rw [put, List.map_cons]
    by_cases hk : k = key
    · subst hk
      rw [if_pos rfl, if_pos rfl]
      have hrow : rest = rest.map fun field => (field.1, if field.1 = k then v else field.2) := by
        refine (List.map_id rest).symm.trans (List.map_congr_left fun field hmem => ?_)
        have hne : field.1 ≠ k := fun heq => hfirst (List.mem_map.mpr ⟨field, hmem, heq⟩)
        rw [if_neg hne]
        rfl
      exact congrArg ((k, v) :: ·) hrow
    · have hmem : key ∈ rest.map Prod.fst :=
        (List.mem_cons.mp hkey).resolve_left (Ne.symm hk)
      rw [if_neg hk, if_neg hk, ih hrest hmem]

/-- Two fields can be set in either order, if one of them is there. -/
theorem put_comm {fields : Fields} {key other : String} (hne : key ≠ other)
    (hkey : key ∈ fields.map Prod.fst) (v w : Value) :
    put (put fields other w) key v = put (put fields key v) other w := by
  induction fields with
  | nil => cases hkey
  | cons first rest ih =>
    obtain ⟨k, u⟩ := first
    by_cases hk : k = key
    · subst hk
      simp [put, hne]
    · have hmem : key ∈ rest.map Prod.fst :=
        (List.mem_cons.mp hkey).resolve_left (Ne.symm hk)
      by_cases hother : k = other
      · subst hother
        simp [put, hk]
      · simp [put, hk, hother, ih hmem]

end TreeLint.Json.Fields

namespace TreeLint.Syntax

open TreeLint.Json

/-! ## Children by their fields -/

theorem mem_fieldEdges_iff_of_not_arr {field : String} {v : Value} (h : ∀ items, v ≠ .arr items)
    {e : Edge} : e ∈ fieldEdges field v ↔ isNode v = true ∧ e = ⟨⟨field, none⟩, v⟩ := by
  rw [fieldEdges_of_not_arr field h]
  split
  · next hnode => simp [hnode]
  · next hnode => simp [hnode]

/-- Where names are distinct, the children in a field are children of the node. -/
theorem mem_edges_of_mem_fields {fields : Fields} (h : (fields.map Prod.fst).Nodup)
    {field : String × Value} (hfield : field ∈ fields) (hname : field.1 ∈ childFields fields) {e : Edge}
    (he : e ∈ fieldEdges field.1 field.2) : e ∈ edges (.obj fields) := by
  refine List.mem_flatMap.mpr ⟨field.1, hname, ?_⟩
  rwa [Fields.get, lookup_of_mem h hfield, Option.getD_some]

/-! ## Trees that are rebuilt in part -/

section Agreement

variable {finish finish' : Path → Fields → Fields} {path : Path}

/-- What is no node is not rebuilt at all. -/
theorem rebuild_congr_of_node {v : Value}
    (h : isNode v = true → rebuild finish path v = rebuild finish' path v) :
    rebuild finish path v = rebuild finish' path v := by
  cases hnode : isNode v with
  | false => rw [rebuild_of_not_node _ _ hnode, rebuild_of_not_node _ _ hnode]
  | true => exact h hnode

/-- A field is rebuilt as its children are. -/
theorem rebuildField_congr {field : String} {v : Value}
    (h : ∀ e ∈ fieldEdges field v,
      rebuild finish (e.step :: path) e.child = rebuild finish' (e.step :: path) e.child) :
    rebuildField finish path field v = rebuildField finish' path field v := by
  by_cases harr : ∃ items, v = .arr items
  · obtain ⟨items, rfl⟩ := harr
    rw [rebuildField_arr, rebuildField_arr]
    refine congrArg Value.arr (List.map_congr_left fun item hitem => ?_)
    refine rebuild_congr_of_node fun hnode => h ⟨⟨field, some item.2⟩, item.1⟩ ?_
    exact mem_fieldEdges_arr_iff.mpr ⟨_, _, List.mk_mem_zipIdx_iff_getElem?.mp hitem, hnode, rfl⟩
  · have hv : ∀ items, v ≠ .arr items := fun items heq => harr ⟨items, heq⟩
    rw [rebuildField_of_not_arr _ _ _ hv, rebuildField_of_not_arr _ _ _ hv]
    refine rebuild_congr_of_node fun hnode => h ⟨⟨field, none⟩, v⟩ ?_
    exact (mem_fieldEdges_iff_of_not_arr hv).mpr ⟨hnode, rfl⟩

/-- Changing one child of a rebuilt field. -/
theorem changeHeld_rebuildField {change : Value → Value} {field : String} {v : Value} {e : Edge}
    (he : e ∈ fieldEdges field v)
    (hhere : change (rebuild finish (e.step :: path) e.child) = rebuild finish' (e.step :: path) e.child)
    (hothers : ∀ d ∈ fieldEdges field v, d.step ≠ e.step →
      rebuild finish (d.step :: path) d.child = rebuild finish' (d.step :: path) d.child) :
    changeHeld change e.step.index (rebuildField finish path field v) =
      rebuildField finish' path field v := by
  by_cases harr : ∃ items, v = .arr items
  · obtain ⟨items, rfl⟩ := harr
    obtain ⟨i, item, hitem, _, rfl⟩ := mem_fieldEdges_arr_iff.mp he
    rw [rebuildField_arr, rebuildField_arr, changeHeld]
    refine congrArg Value.arr (List.ext_getElem? fun j => ?_)
    rw [List.getElem?_modify, List.getElem?_map, List.getElem?_map, List.getElem?_zipIdx, Nat.zero_add]
    cases hj : items[j]? with
    | none => rfl
    | some other =>
      refine congrArg some ?_
      by_cases hij : i = j
      · subst hij
        cases hj.symm.trans hitem
        simpa using hhere
      · simp only [hij, if_false]
        refine rebuild_congr_of_node fun hnode => hothers ⟨⟨field, some j⟩, other⟩
          (mem_fieldEdges_arr_iff.mpr ⟨j, other, hj, hnode, rfl⟩) fun heq => hij ?_
        exact (Option.some.inj (Step.mk.inj heq).2).symm
  · have hv : ∀ items, v ≠ .arr items := fun items heq => harr ⟨items, heq⟩
    obtain ⟨_, rfl⟩ := (mem_fieldEdges_iff_of_not_arr hv).mp he
    rw [rebuildField_of_not_arr _ _ _ hv, rebuildField_of_not_arr _ _ _ hv]
    exact hhere

/-- The fields of a node are rebuilt as its children are. -/
theorem rebuildFields_congr {fields : Fields} (hdistinct : (fields.map Prod.fst).Nodup)
    (h : ∀ e ∈ edges (.obj fields),
      rebuild finish (e.step :: path) e.child = rebuild finish' (e.step :: path) e.child) :
    rebuildFields finish path (childFields fields) fields =
      rebuildFields finish' path (childFields fields) fields := by
  rw [rebuildFields_eq, rebuildFields_eq]
  refine List.map_congr_left fun field hfield => congrArg (field.1, ·) ?_
  split
  · next hname =>
    refine rebuildField_congr fun e he => h e ?_
    exact mem_edges_of_mem_fields hdistinct hfield (List.contains_iff_mem.mp hname) he
  · rfl

/-- Setting one field of a node that is rebuilt, where the children in other fields are rebuilt alike. -/
theorem put_rebuildFields {fields : Fields} (hdistinct : (fields.map Prod.fst).Nodup) {name : String}
    {held : Value} (hlookup : fields.lookup name = some held) (hname : name ∈ childFields fields)
    (hothers : ∀ e ∈ edges (.obj fields), e.step.field ≠ name →
      rebuild finish (e.step :: path) e.child = rebuild finish' (e.step :: path) e.child) :
    Fields.put (rebuildFields finish path (childFields fields) fields) name
        (rebuildField finish' path name held) =
      rebuildFields finish' path (childFields fields) fields := by
  have hkeys := map_fst_rebuildFields finish path (childFields fields) fields
  have hkey : name ∈ fields.map Prod.fst :=
    List.mem_map.mpr ⟨_, mem_of_lookup_eq_some hlookup, rfl⟩
  rw [Fields.put_eq_map (hkeys ▸ hdistinct) (hkeys ▸ hkey), rebuildFields_eq, rebuildFields_eq,
    List.map_map]
  refine List.map_congr_left fun field hfield => congrArg (field.1, ·) ?_
  dsimp only
  by_cases heq : field.1 = name
  · subst heq
    cases (lookup_of_mem hdistinct hfield).symm.trans hlookup
    rw [if_pos rfl, if_pos (List.contains_iff_mem.mpr hname)]
  · rw [if_neg heq]
    split
    · next hchild =>
      refine rebuildField_congr fun e he => hothers e ?_ (field_of_mem_fieldEdges he ▸ heq)
      exact mem_edges_of_mem_fields hdistinct hfield (List.contains_iff_mem.mp hchild) he
    · rfl

end Agreement

/-- The value at `path` rebuilt with everything below it, whether it is a node itself or not. -/
def remade (finish : Path → Fields → Fields) (path : Path) : Value → Value
  | .obj fields => .obj (finish path (rebuildFields finish path (childFields fields) fields))
  | v => v

theorem rebuild_eq_remade (finish : Path → Fields → Fields) (path : Path) {v : Value}
    (h : isNode v = true) : rebuild finish path v = remade finish path v := by
  obtain ⟨fields, _, rfl, _⟩ := isNode_iff.mp h
  exact rebuild_node finish path h

theorem edges_remade {finish : Path → Fields → Fields} (hfinish : ∀ path, TouchesParent (finish path))
    (path : Path) (v : Value) :
    edges (remade finish path v) =
      (edges v).map fun e => ⟨e.step, rebuild finish (e.step :: path) e.child⟩ := by
  cases v with
  | obj fields => exact edges_rebuilt hfinish path fields
  | _ => rfl

/-- A place of the tree is a place of the rebuilt tree. -/
theorem at?_remade {finish : Path → Fields → Fields} (hfinish : ∀ path, TouchesParent (finish path))
    {tree v : Value} {path : Path} (h : Reaches tree path v) :
    at? (remade finish [] tree) path = some (remade finish path v) := by
  induction h with
  | root => rfl
  | @child path v e _ he ih =>
    have hchild : ⟨e.step, rebuild finish (e.step :: path) e.child⟩ ∈ edges (remade finish path v) := by
      rw [edges_remade hfinish]
      exact List.mem_map.mpr ⟨e, he, rfl⟩
    rw [at?_child ih hchild, rebuild_eq_remade _ _ (isNode_of_mem_edges he)]

/-- What is done at the places of a tree settles how it is rebuilt. -/
theorem rebuild_congr {finish finish' : Path → Fields → Fields} {path : Path} {v : Value}
    (hdistinct : HasDistinctNames v)
    (h : ∀ visit ∈ preorder path v, finish visit.path = finish' visit.path) :
    rebuild finish path v = rebuild finish' path v := by
  induction path, v using preorder.induct with
  | case1 path v ih =>
    refine rebuild_congr_of_node fun hnode => ?_
    obtain ⟨fields, _, rfl, _⟩ := isNode_iff.mp hnode
    have hfields := rebuildFields_congr (hasDistinctNames_obj_iff.mp hdistinct).1 fun e he =>
      ih ⟨e, he⟩ (everyObject_child hdistinct he) fun visit hvisit =>
        h visit (mem_preorder_of_child he hvisit)
    rw [rebuild_node _ _ hnode, rebuild_node _ _ hnode, hfields, h _ (self_mem_preorder path _)]

theorem remade_congr {finish finish' : Path → Fields → Fields} {path : Path} {v : Value}
    (hdistinct : HasDistinctNames v)
    (h : ∀ visit ∈ preorder path v, finish visit.path = finish' visit.path) :
    remade finish path v = remade finish' path v := by
  cases v with
  | obj fields =>
    have hbelow : ∀ e ∈ edges (.obj fields),
        rebuild finish (e.step :: path) e.child = rebuild finish' (e.step :: path) e.child :=
      fun e he => rebuild_congr (everyObject_child hdistinct he) fun visit hvisit =>
        h visit (mem_preorder_of_child he hvisit)
    rw [remade, remade, rebuildFields_congr (hasDistinctNames_obj_iff.mp hdistinct).1 hbelow,
      h _ (self_mem_preorder path _)]
  | _ => rfl

/-! ## Marked places -/

/-- The fields of the node at a path, with the way back set if the place is marked. -/
def hangAt (marks : List Path) (path : Path) (fields : Fields) : Fields :=
  if path ∈ marks then hang path fields else fields

theorem hangAt_of_mem {marks : List Path} {path : Path} (h : path ∈ marks) :
    hangAt marks path = hang path := by
  funext fields
  exact if_pos h

theorem hangAt_congr {marks marks' : List Path} {path : Path} (h : path ∈ marks ↔ path ∈ marks') :
    hangAt marks path = hangAt marks' path := by
  funext fields
  simp only [hangAt, h]

theorem touchesParent_hangAt (marks : List Path) (path : Path) : TouchesParent (hangAt marks path) := by
  by_cases hmark : path ∈ marks
  · rw [hangAt_of_mem hmark]
    exact touchesParent_hang path
  · have hkeep : hangAt marks path = id := by
      funext fields
      exact if_neg hmark
    rw [hkeep]
    exact ⟨fun _ => rfl, fun _ _ _ => rfl⟩

theorem put_hangAt (marks : List Path) (path : Path) {fields : Fields} {key : String}
    (hne : key ≠ parentField) (hkey : key ∈ fields.map Prod.fst) (v : Value) :
    Fields.put (hangAt marks path fields) key v = hangAt marks path (Fields.put fields key v) := by
  unfold hangAt
  split
  · exact Fields.put_comm hne hkey v _
  · rfl

theorem hang_hangAt (marks : List Path) (path : Path) (fields : Fields) :
    hang path (hangAt marks path fields) = hang path fields := by
  unfold hangAt
  split
  · exact Fields.put_put fields parentField _ _
  · rfl

/-- Changing one child of a node that is rebuilt, where the other children are rebuilt alike. -/
theorem changeStep_remade {marks marks' : List Path} {change : Value → Value} {path : Path} {v : Value}
    {e : Edge} (hdistinct : HasDistinctNames v) (he : e ∈ edges v) (hpath : path ∈ marks ↔ path ∈ marks')
    (hhere : change (rebuild (hangAt marks) (e.step :: path) e.child) =
      rebuild (hangAt marks') (e.step :: path) e.child)
    (hothers : ∀ d ∈ edges v, d.step ≠ e.step → rebuild (hangAt marks) (d.step :: path) d.child =
      rebuild (hangAt marks') (d.step :: path) d.child) :
    changeStep change e.step (remade (hangAt marks) path v) = remade (hangAt marks') path v := by
  cases v with
  | obj fields =>
    have hnames := (hasDistinctNames_obj_iff.mp hdistinct).1
    obtain ⟨name, hname, hfield⟩ := List.mem_flatMap.mp he
    have hstep : e.step.field = name := field_of_mem_fieldEdges hfield
    have hparent : name ≠ parentField := fun heq => parentField_not_mem_childFields fields (heq ▸ hname)
    have hnull : Fields.get fields name ≠ .null := by
      intro hnull
      rw [hnull] at hfield
      cases hfield
    have hlookup := lookup_of_get_eq rfl hnull
    have hkey : name ∈ (rebuildFields (hangAt marks) path (childFields fields) fields).map Prod.fst := by
      rw [map_fst_rebuildFields]
      exact List.mem_map.mpr ⟨_, mem_of_lookup_eq_some hlookup, rfl⟩
    have hfound : (hangAt marks path (rebuildFields (hangAt marks) path (childFields fields) fields)).lookup
        name = some (rebuildField (hangAt marks) path name (Fields.get fields name)) := by
      rw [(touchesParent_hangAt marks path).lookup_eq _ hparent, lookup_rebuildFields, hlookup,
        Option.map_some, if_pos (List.contains_iff_mem.mpr hname)]
    have hheld := changeHeld_rebuildField hfield hhere fun d hd hne =>
      hothers d (List.mem_flatMap.mpr ⟨name, hname, hd⟩) hne
    have hfields := put_rebuildFields hnames hlookup hname fun d hd hne =>
      hothers d hd fun heq => hne (heq ▸ hstep)
    rw [remade, changeStep, hstep, hfound]
    dsimp only
    rw [hheld, put_hangAt _ _ hparent hkey, hfields, remade, hangAt_congr hpath]
  | _ => cases he

/-! ## Writing at one place -/

section Writing

variable {tree : Value} (hdistinct : HasDistinctNames tree)

include hdistinct

theorem Reaches.hasDistinctNames {path : Path} {v : Value} (h : Reaches tree path v) :
    HasDistinctNames v := by
  induction h with
  | root => exact hdistinct
  | child _ he ih => exact everyObject_child ih he

/-- A change at one place of a tree that is rebuilt in part gives a tree that is rebuilt in another part,
if it does so for what stands at the place and the marks of no other place change. -/
theorem changeAt_remade {path : Path} {v : Value} (h : Reaches tree path v) {marks marks' : List Path}
    {change : Value → Value} (hoff : ∀ place, ¬ path <:+ place → (place ∈ marks ↔ place ∈ marks'))
    (hhere : change (remade (hangAt marks) path v) = remade (hangAt marks') path v) :
    changeAt change path (remade (hangAt marks) [] tree) = remade (hangAt marks') [] tree := by
  -- Going up, the change at a place becomes one at the place above it.
  induction h generalizing change with
  | root => exact hhere
  | @child path v e h he ih =>
    have hlonger : ¬ e.step :: path <:+ path := fun hsuffix =>
      Nat.not_succ_le_self _ hsuffix.length_le
    refine ih (fun place hplace => hoff place fun hsuffix => hplace ?_) ?_
    · exact (List.suffix_cons e.step path).trans hsuffix
    · have hnode := isNode_of_mem_edges he
      rw [← rebuild_eq_remade _ _ hnode, ← rebuild_eq_remade _ _ hnode] at hhere
      refine changeStep_remade (h.hasDistinctNames hdistinct) he (hoff path hlonger) hhere fun d hd hne => ?_
      refine rebuild_congr ((h.child hd).hasDistinctNames hdistinct) fun visit hvisit => ?_
      refine hangAt_congr (hoff visit.path fun hsuffix => ?_)
      exact (part_of_step_ne path hne).ne (suffix_of_mem_preorder hvisit) hsuffix rfl

/-- Setting the way back of the node at one place marks the place. -/
theorem changeAt_setParent {path : Path} {v : Value} (h : Reaches tree path v) (marks : List Path) :
    changeAt (setParent (wayBack path)) path (remade (hangAt marks) [] tree) =
      remade (hangAt (path :: marks)) [] tree := by
  have hoff : ∀ place, place ≠ path → (place ∈ marks ↔ place ∈ path :: marks) := by
    intro place hne
    simp [hne]
  refine changeAt_remade hdistinct h (fun place hplace => hoff place ?_) ?_
  · rintro rfl
    exact hplace List.suffix_rfl
  · cases v with
    | obj fields =>
      have hnames := h.hasDistinctNames hdistinct
      have hbelow : ∀ e ∈ edges (.obj fields), rebuild (hangAt marks) (e.step :: path) e.child =
          rebuild (hangAt (path :: marks)) (e.step :: path) e.child := by
        intro e he
        refine rebuild_congr (everyObject_child hnames he) fun visit hvisit => hangAt_congr (hoff _ ?_)
        intro heq
        exact Nat.not_succ_le_self _ (heq ▸ (suffix_of_mem_preorder hvisit).length_le)
      rw [remade, remade, rebuildFields_congr (hasDistinctNames_obj_iff.mp hnames).1 hbelow,
        hangAt_of_mem List.mem_cons_self, ← hang_hangAt marks]
      rfl
    | _ => rfl

/-- Leading children of one node back to it marks their places. -/
theorem foldl_changeAt_setParent {path : Path} {v : Value} (h : Reaches tree path v) (marks : List Path)
    {children : List Edge} (hchildren : ∀ e ∈ children, e ∈ edges v) :
    (children.map fun e => e.step :: path).foldl
        (fun root child => changeAt (setParent (.link path)) child root) (remade (hangAt marks) [] tree) =
      remade (hangAt ((children.map fun e => e.step :: path).reverse ++ marks)) [] tree := by
  induction children generalizing marks with
  | nil => rfl
  | cons e rest ih =>
    have hhere : changeAt (setParent (.link path)) (e.step :: path) (remade (hangAt marks) [] tree) =
        remade (hangAt ((e.step :: path) :: marks)) [] tree :=
      changeAt_setParent hdistinct (h.child (hchildren e List.mem_cons_self)) marks
    rw [List.map_cons, List.foldl_cons, hhere, ih _ fun d hd => hchildren d (List.mem_cons_of_mem _ hd),
      List.reverse_cons, List.append_assoc, List.singleton_append]

end Writing

/-! ## Rounds -/

theorem total_reverse {α : Type} (count : α → Nat) (row : List α) :
    total count row.reverse = total count row := by
  induction row with
  | nil => rfl
  | cons a row ih =>
    rw [List.reverse_cons, total_append, ih, total_cons, total_cons, total_nil]
    omega

/-- Each node of the tree is marked, or it is below a pending place. -/
def Covers (tree : Value) (marks : List Path) (places : List Visit) : Prop :=
  ∀ visit ∈ preorder [] tree, visit.path ∈ marks ∨
    ∃ place ∈ places, ∃ child ∈ place.children, visit ∈ preorder child.path child.node

theorem Covers.remade_eq {tree : Value} {marks : List Path} (h : Covers tree marks [])
    (hdistinct : HasDistinctNames tree) : remade (hangAt marks) [] tree = remade hang [] tree := by
  refine remade_congr hdistinct fun visit hvisit => hangAt_of_mem ?_
  simpa using h visit hvisit

/-- When the children of a place are marked and pending, the place need not be pending. -/
theorem Covers.step {tree : Value} {marks : List Path} {place : Visit} {rest : List Visit}
    (h : Covers tree marks (place :: rest)) :
    Covers tree (place.children.reverse.map Visit.path ++ marks) (place.children.reverse ++ rest) := by
  intro visit hvisit
  rcases h visit hvisit with hmark | ⟨above, habove, child, hchild, hbelow⟩
  · exact .inl (List.mem_append_right _ hmark)
  · rcases List.mem_cons.mp habove with rfl | hrest
    · have hpending := List.mem_reverse.mpr hchild
      rcases mem_preorder_iff.mp hbelow with rfl | ⟨e, he, hdeeper⟩
      · exact .inl (List.mem_append_left _ (List.mem_map_of_mem hpending))
      · exact .inr ⟨child, List.mem_append_left _ hpending, ⟨e.step :: child.path, e.child⟩,
          List.mem_map.mpr ⟨e, he, rfl⟩, hdeeper⟩
    · exact .inr ⟨above, List.mem_append_right _ hrest, child, hchild, hbelow⟩

section Rounds

variable {tree : Value}

theorem childPaths_remade (marks : List Path) {path : Path} {v : Value} (h : Reaches tree path v) :
    childPaths (remade (hangAt marks) [] tree) path = (edges v).map fun e => e.step :: path := by
  rw [childPaths, at?_remade (touchesParent_hangAt marks) h]
  dsimp only
  rw [edges_remade (touchesParent_hangAt marks), List.map_map]
  rfl

variable (hdistinct : HasDistinctNames tree)

include hdistinct

/-- One round marks the places of the children. -/
theorem step_remade (marks : List Path) {place : Visit} (h : Reaches tree place.path place.node)
    (rest : List Visit) :
    LinkState.step ⟨remade (hangAt marks) [] tree, (place :: rest).map Visit.path⟩ =
      ⟨remade (hangAt (place.children.reverse.map Visit.path ++ marks)) [] tree,
        (place.children.reverse ++ rest).map Visit.path⟩ := by
  have hpaths : (edges place.node).map (fun e => e.step :: place.path) =
      place.children.map Visit.path := by
    rw [Visit.children, List.map_map]
    rfl
  rw [LinkState.step, List.map_cons]
  dsimp only
  rw [childPaths_remade marks h, foldl_changeAt_setParent hdistinct h marks fun e he => he, hpaths,
    ← List.map_reverse, ← List.map_append]

/-- As long as each node is marked or below a pending place, and there is a round for each node that is
pending or below, the rounds end with the whole tree linked and nothing pending. -/
theorem run_remade (rounds : Nat) {marks : List Path} {places : List Visit}
    (hplaces : ∀ place ∈ places, Reaches tree place.path place.node) (hcovers : Covers tree marks places)
    (hrounds : pendingNodes places ≤ rounds) :
    LinkState.run ⟨remade (hangAt marks) [] tree, places.map Visit.path⟩ rounds =
      ⟨remade hang [] tree, []⟩ := by
  induction rounds generalizing marks places with
  | zero =>
    cases places with
    | nil => rw [LinkState.run, hcovers.remade_eq hdistinct, List.map_nil]
    | cons place rest =>
      have hcount := nodeCount_eq place.node
      rw [pendingNodes, total_cons] at hrounds
      omega
  | succ rounds ih =>
    rw [LinkState.run]
    cases places with
    | nil => exact ih hplaces hcovers (Nat.zero_le _)
    | cons place rest =>
      have hplace := hplaces place List.mem_cons_self
      rw [step_remade hdistinct marks hplace]
      refine ih ?_ hcovers.step ?_
      · intro other hother
        rcases List.mem_append.mp hother with hchild | hrest
        · obtain ⟨e, he, rfl⟩ := List.mem_map.mp (List.mem_reverse.mp hchild)
          exact hplace.child he
        · exact hplaces other (List.mem_cons_of_mem _ hrest)
      · have hfewer := pendingNodes_children place rest
        rw [pendingNodes, total_append, total_reverse, ← total_append]
        exact Nat.le_of_lt_succ (Nat.lt_of_lt_of_le hfewer hrounds)

end Rounds

/-! ## The whole tree -/

mutual

theorem rebuildField_unmarked (path : Path) (field : String) :
    ∀ v, rebuildField (hangAt []) path field v = v
  | .arr items => by rw [rebuildField, rebuildItems_unmarked path field 0 items]
  | .obj fields => by
    rw [rebuildField, rebuildFields_unmarked (⟨field, none⟩ :: path) (childFields fields) fields]
    split <;> rfl
  | .null | .bool _ | .int _ | .float _ | .str _ | .link _ => by simp only [rebuildField]

theorem rebuildItems_unmarked (path : Path) (field : String) :
    ∀ i items, rebuildItems (hangAt []) path field i items = items
  | _, [] => by rw [rebuildItems]
  | i, .obj fields :: rest => by
    rw [rebuildItems, rebuildItems_unmarked path field (i + 1) rest,
      rebuildFields_unmarked (⟨field, some i⟩ :: path) (childFields fields) fields]
    split <;> rfl
  | i, .null :: rest | i, .bool _ :: rest | i, .int _ :: rest | i, .float _ :: rest
  | i, .str _ :: rest | i, .arr _ :: rest | i, .link _ :: rest => by
    simp only [rebuildItems, rebuildItems_unmarked path field (i + 1) rest]

theorem rebuildFields_unmarked (path : Path) (names : List String) :
    ∀ fields, rebuildFields (hangAt []) path names fields = fields
  | [] => by rw [rebuildFields]
  | (name, value) :: rest => by
    rw [rebuildFields, rebuildField_unmarked path name value, rebuildFields_unmarked path names rest,
      ite_self]

end

/-- After one round for each node nothing is pending, and the tree is linked. -/
theorem run_start {fields : Fields} (h : HasDistinctNames (.obj fields)) :
    LinkState.run ⟨setParent .null (.obj fields), [[]]⟩ (nodeCount (.obj fields)) =
      ⟨linkNode [] .null fields, []⟩ := by
  have hunmarked : remade (hangAt []) [] (.obj fields) = .obj fields := by
    rw [remade, rebuildFields_unmarked]
    rfl
  have hstart : setParent .null (.obj fields) = remade (hangAt [[]]) [] (.obj fields) := by
    have hroot := changeAt_setParent h .root []
    rwa [hunmarked] at hroot
  have hcovers : Covers (.obj fields) [[]] [⟨[], .obj fields⟩] := by
    intro visit hvisit
    rcases mem_preorder_iff.mp hvisit with rfl | ⟨e, he, hbelow⟩
    · exact .inl List.mem_cons_self
    · exact .inr ⟨_, List.mem_cons_self, ⟨[e.step], e.child⟩, List.mem_map.mpr ⟨e, he, rfl⟩, hbelow⟩
  rw [hstart, linkNode, linkFields_eq]
  exact run_remade h (nodeCount (.obj fields)) (List.forall_mem_singleton.mpr .root) hcovers
    (Nat.le_refl _)

/-- Linking in place gives what the recursion gives, where no object has two fields of one name. -/
theorem linkParents_eq_linkTree {tree : Value} (h : HasDistinctNames tree) :
    linkParents tree = linkTree tree := by
  cases tree with
  | obj fields => simp only [linkParents, linkTree, run_start h]
  | _ => rfl

end TreeLint.Syntax
