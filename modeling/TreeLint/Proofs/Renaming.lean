/-
  Renaming the identifiers of a program.

  A renaming is carried out on a whole document: every identifier in it, and every tag, gets its new
  name, wherever it stands.  Nothing else changes, so that the tree keeps its form and its kinds.  If
  identifiers stand only where names are told apart by their kind, the renamed document looks like the
  original up to the names.
-/
import Mathlib.Data.List.Perm.Subperm
import Mathlib.Logic.Equiv.Basic
import TreeLint.Proofs.Likeness.Verdicts
import TreeLint.Proofs.Objects
import TreeLint.Proofs.Tree

set_option autoImplicit false

namespace TreeLint.Json

/-- Induction over a document by its parts. -/
@[elab_as_elim]
theorem Value.byParts {motive : Value → Prop}
    (plain : ∀ v : Value, v.isContainer = false → motive v)
    (arr : ∀ items : List Value, (∀ v ∈ items, motive v) → motive (.arr items))
    (obj : ∀ fields : Fields, (∀ field ∈ fields, motive field.2) → motive (.obj fields))
    (v : Value) : motive v := by
  induction hsize : sizeOf v using Nat.strongRecOn generalizing v with
  | ind size ih =>
    cases v with
    | arr items => exact arr items fun w hw => ih _ (hsize ▸ sizeOf_lt_of_mem hw) w rfl
    | obj fields =>
      exact obj fields fun field hfield => ih _ (hsize ▸ sizeOf_lt_of_mem_fields hfield) field.2 rfl
    | _ => exact plain _ rfl

/-! ## Objects that are equal -/

namespace Value

theorem text?_eq_of_alike {a b : Value} (h : a.alike b = true) : a.text? = b.text? := by
  cases a with
  | str s =>
    cases b with
    | str t =>
      rw [alike_str] at h
      rw [eq_of_beq h]
    | _ => simp [alike, same, sameNumber, number?, isNaN] at h
  | _ =>
    cases b with
    | str t => simp [alike, same, sameNumber, number?, isNaN] at h
    | _ => rfl

/-- No list and no object is equal to anything else. -/
theorem same_eq_false {a b : Value} (ha : a.isContainer = false) (hb : b.isContainer = true) :
    a.same b = false := by
  cases b with
  | arr items =>
    cases a with
    | arr => cases ha
    | _ => simp [same, sameNumber, number?]
  | obj fields =>
    cases a with
    | obj => cases ha
    | _ => simp [same, sameNumber, number?]
  | _ => cases hb

theorem sameFields_iff {xs ys : Fields} :
    sameFields xs ys = true ↔
      ∀ field ∈ xs, ∃ y, ys.lookup field.1 = some y ∧ field.2.alike y = true := by
  induction xs with
  | nil => simp [sameFields]
  | cons field rest ih =>
    obtain ⟨key, x⟩ := field
    rw [sameFields, Bool.and_eq_true, ih, List.forall_mem_cons]
    refine and_congr_left fun _ => ?_
    cases ys.lookup key with
    | none => simp
    | some y => simp [alike]

/-- Objects with the same fields are of the same kind. -/
theorem type_eq_of_sameFields {xs ys : Fields} (hdistinct : (xs.map Prod.fst).Nodup)
    (hlength : xs.length = ys.length) (h : sameFields xs ys = true) :
    (Fields.get xs "type").text? = (Fields.get ys "type").text? := by
  have hfields := sameFields_iff.mp h
  have hkeys : xs.map Prod.fst ⊆ ys.map Prod.fst := by
    intro key hkey
    obtain ⟨field, hfield, rfl⟩ := List.mem_map.mp hkey
    obtain ⟨y, hy, _⟩ := hfields field hfield
    exact List.mem_map.mpr ⟨_, mem_of_lookup_eq_some hy, rfl⟩
  have hperm : (xs.map Prod.fst).Perm (ys.map Prod.fst) :=
    (List.subperm_of_subset hdistinct hkeys).perm_of_length_le (by simp [hlength])
  unfold Fields.get
  cases hx : xs.lookup "type" with
  | some x =>
    obtain ⟨y, hy, halike⟩ := hfields _ (mem_of_lookup_eq_some hx)
    rw [hy]
    exact text?_eq_of_alike halike
  | none =>
    cases hy : ys.lookup "type" with
    | none => rfl
    | some y =>
      have hmem := hperm.mem_iff.mpr (List.mem_map_of_mem (f := Prod.fst) (mem_of_lookup_eq_some hy))
      obtain ⟨field, hfield, hkey⟩ := List.mem_map.mp hmem
      have hne := List.lookup_eq_none_iff.mp hx field hfield
      rw [hkey] at hne
      cases hne
end Value

end TreeLint.Json

namespace TreeLint

open TreeLint.Json TreeLint.Syntax TreeLint.Usage TreeLint.Source

theorem isName_congr {v w : Value} (h : kind? v = kind? w) : isName v = isName w := by
  rw [isName, isName, isKind_congr h, isKind_congr h]

/-- Objects of which only one is an identifier have not the same fields. -/
theorem sameFields_eq_false {xs ys : Fields} (hdistinct : (xs.map Prod.fst).Nodup)
    (h : isName (.obj xs) ≠ isName (.obj ys)) :
    (xs.length == ys.length && Value.sameFields xs ys) = false := by
  rw [Bool.eq_false_iff]
  intro hsame
  obtain ⟨hlength, hfields⟩ := Bool.and_eq_true_iff.mp hsame
  exact h (isName_congr (Value.type_eq_of_sameFields hdistinct (eq_of_beq hlength) hfields))

/-! ## Carrying out a renaming -/

namespace Renaming

/-- The renaming that swaps two names of the same case. -/
def swap (a b : String) (h : Text.startsUppercase a = Text.startsUppercase b) : Renaming where
  apply := Equiv.swap a b
  injective heq := (Equiv.swap a b).injective heq
  startsUppercase_apply s := by
    rw [Equiv.swap_apply_def]
    split
    · next hs => rw [hs, h]
    · split
      · next hs => rw [hs, h]
      · rfl

/-- The value of a field; the name of an identifier is renamed. -/
def inField (ρ : Renaming) (named : Bool) (key : String) (v : Value) : Value :=
  if named && key == "name" then ρ.name v else v

mutual

/-- The document with all its identifiers renamed. -/
def rename (ρ : Renaming) : Value → Value
  | .arr items => .arr (renameItems ρ items)
  | .obj fields => .obj (renameFields ρ (isName (.obj fields)) fields)
  | v => v

/-- The items, renamed. -/
def renameItems (ρ : Renaming) : List Value → List Value
  | [] => []
  | item :: rest => rename ρ item :: renameItems ρ rest

/-- The fields, renamed; those of an identifier hold a name. -/
def renameFields (ρ : Renaming) (named : Bool) : List (String × Value) → List (String × Value)
  | [] => []
  | (key, value) :: rest =>
    (key, ρ.inField named key (rename ρ value)) :: renameFields ρ named rest

end

variable (ρ : Renaming)

theorem rename_arr (items : List Value) : ρ.rename (.arr items) = .arr (items.map ρ.rename) := by
  rw [rename]
  congr 1
  induction items with
  | nil => rfl
  | cons item rest ih => rw [renameItems, ih, List.map_cons]

theorem renameFields_eq (named : Bool) (fields : Fields) :
    ρ.renameFields named fields =
      fields.map fun field => (field.1, ρ.inField named field.1 (ρ.rename field.2)) := by
  induction fields with
  | nil => rfl
  | cons field rest ih =>
    obtain ⟨key, value⟩ := field
    rw [renameFields, ih, List.map_cons]

theorem rename_of_plain {v : Value} (h : v.isContainer = false) : ρ.rename v = v := by
  cases v with
  | arr => cases h
  | obj => cases h
  | _ => rfl

theorem rename_name {v : Value} (h : v.text? = none) : ρ.name (ρ.rename v) = ρ.rename v := by
  cases v with
  | str s => cases h
  | _ => rfl

/-! ## Fields of renamed objects -/

theorem inField_of_ne {key : String} (h : key ≠ "name") (named : Bool) (v : Value) :
    ρ.inField named key v = v := by
  rw [inField, beq_false_of_ne h, Bool.and_false]
  rfl

theorem map_fst_renameFields (named : Bool) (fields : Fields) :
    (ρ.renameFields named fields).map Prod.fst = fields.map Prod.fst := by
  rw [renameFields_eq, List.map_map]
  rfl

theorem lookup_renameFields (named : Bool) (fields : Fields) (key : String) :
    (ρ.renameFields named fields).lookup key =
      (fields.lookup key).map fun v => ρ.inField named key (ρ.rename v) := by
  induction fields with
  | nil => rfl
  | cons field rest ih =>
    obtain ⟨k, v⟩ := field
    rw [renameFields, List.lookup_cons, List.lookup_cons]
    cases hk : key == k with
    | true => rw [eq_of_beq hk]; rfl
    | false => exact ih

theorem get_renameFields (named : Bool) (fields : Fields) {key : String} (h : key ≠ "name") :
    Fields.get (ρ.renameFields named fields) key = ρ.rename (Fields.get fields key) := by
  unfold Fields.get
  rw [lookup_renameFields]
  cases fields.lookup key with
  | none => rfl
  | some v => exact ρ.inField_of_ne h named _

/-- Kinds are no names. -/
theorem text?_type_renameFields (named : Bool) (fields : Fields) :
    (Fields.get (ρ.renameFields named fields) "type").text? = (Fields.get fields "type").text? := by
  rw [get_renameFields _ _ _ (by decide)]
  cases Fields.get fields "type" <;> rfl

theorem kind?_rename (v : Value) : kind? (ρ.rename v) = kind? v := by
  cases v with
  | obj fields => exact ρ.text?_type_renameFields _ fields
  | _ => rfl

theorem kind?_name (v : Value) : kind? (ρ.name v) = kind? v := by
  cases v <;> rfl

/-! ## Children of renamed nodes -/

theorem fieldEdges_name (field : String) (v : Value) :
    fieldEdges field (ρ.name v) = fieldEdges field v := by
  cases v <;> rfl

theorem fieldEdges_rename (field : String) (v : Value) :
    fieldEdges field (ρ.rename v) =
      (fieldEdges field v).map fun e => ⟨e.step, ρ.rename e.child⟩ := by
  have hnode : ∀ w, isNode (ρ.rename w) = isNode w := fun w => by
    rw [isNode, isNode, kind?_rename]
  cases v with
  | arr items =>
    rw [rename_arr, fieldEdges, fieldEdges, itemEdges, itemEdges, List.zipIdx_map,
      List.filterMap_map, List.map_filterMap]
    congr 1
    funext pair
    simp only [Function.comp_apply, Prod.map, id, hnode]
    split <;> rfl
  | obj fields =>
    have hfields := hnode (.obj fields)
    rw [rename] at hfields ⊢
    simp only [fieldEdges, hfields]
    split
    · rw [List.map_singleton, rename]
    · rfl
  | _ => rfl

theorem childFields_renameFields (named : Bool) (fields : Fields) :
    childFields (ρ.renameFields named fields) = childFields fields := by
  unfold childFields
  rw [text?_type_renameFields, map_fst_renameFields]

/-- The children of a renamed node are the renamed children, in the same places. -/
theorem edges_rename (v : Value) :
    edges (ρ.rename v) = (edges v).map fun e => ⟨e.step, ρ.rename e.child⟩ := by
  cases v with
  | obj fields =>
    rw [rename, edges, edges, childFields_renameFields, List.map_flatMap]
    refine List.flatMap_congr fun key _ => ?_
    rw [← fieldEdges_rename]
    unfold Fields.get
    rw [lookup_renameFields]
    cases fields.lookup key with
    | none => rfl
    | some w =>
      rw [Option.map_some, Option.getD_some, Option.getD_some, inField]
      split
      · exact ρ.fieldEdges_name key _
      · rfl
  | _ => rfl

end Renaming

/-! ## Documents with plain names -/

/-- There is no identifier in the value. -/
def nameless (v : Value) : Bool :=
  everyObject (fun fields => !isName (.obj fields)) v

/-- What gives a function or a class its name is an identifier. -/
def declaresIdentifier (fields : Fields) : Bool :=
  match Fields.get fields "id" with
  | .obj id => !declaresOne (.obj fields) || (Fields.get id "name").text?.isNone || isName (.obj id)
  | _ => true

/-- The object has plain names: no field stands twice, the name of a declared function or class is an
identifier, and positions hold none. -/
def hasPlainNames (fields : Fields) : Bool :=
  decide (fields.map Prod.fst).Nodup && declaresIdentifier fields &&
    nameless (Fields.get fields "loc") && nameless (Fields.get fields "range")

/-- All objects of the document have plain names. -/
def PlainNames (v : Value) : Prop :=
  everyObject hasPlainNames v = true

instance (v : Value) : Decidable (PlainNames v) :=
  inferInstanceAs (Decidable (everyObject hasPlainNames v = true))

theorem plainNames_obj_iff {fields : Fields} :
    PlainNames (.obj fields) ↔ (fields.map Prod.fst).Nodup ∧ declaresIdentifier fields = true ∧
      nameless (Fields.get fields "loc") = true ∧ nameless (Fields.get fields "range") = true ∧
      ∀ field ∈ fields, PlainNames field.2 := by
  unfold PlainNames
  rw [everyObject_obj_iff]
  simp only [hasPlainNames, Bool.and_eq_true, decide_eq_true_eq, and_assoc]

namespace Renaming

variable (ρ : Renaming)

/-- A value without identifiers stays as it is. -/
theorem rename_of_nameless {v : Value} (h : nameless v = true) : ρ.rename v = v := by
  induction v using Value.byParts with
  | plain v hplain => exact ρ.rename_of_plain hplain
  | arr items ih =>
    have hitems : items.map ρ.rename = items.map id :=
      List.map_congr_left fun item hitem => ih item hitem (everyObject_arr_iff.mp h item hitem)
    rw [rename_arr, hitems, List.map_id]
  | obj fields ih =>
    obtain ⟨hname, hparts⟩ := everyObject_obj_iff.mp h
    have hfields : ρ.renameFields false fields = fields.map id := by
      rw [renameFields_eq]
      refine List.map_congr_left fun field hfield => ?_
      rw [ih field hfield (hparts field hfield)]
      rfl
    rw [rename, Bool.not_eq_true' _ |>.mp hname, hfields, List.map_id]

/-- Renaming keeps the span of an object. -/
theorem spanOf_rename {fields : Fields} (h : PlainNames (.obj fields)) (named : Bool) :
    spanOf (ρ.renameFields named fields) = spanOf fields := by
  obtain ⟨_, _, _, hrange, _⟩ := plainNames_obj_iff.mp h
  have hwhole : ∀ v, (ρ.rename v).whole? = v.whole? := fun v => by cases v <;> rfl
  have hsame : ∀ v : Value, v.whole?.isSome = true → ρ.rename v = v := by
    intro v hv
    cases v with
    | arr => cases hv
    | obj => cases hv
    | _ => rfl
  simp only [spanOf, ρ.get_renameFields named fields (show "start" ≠ "name" by decide),
    ρ.get_renameFields named fields (show "end" ≠ "name" by decide),
    ρ.get_renameFields named fields (show "range" ≠ "name" by decide), hwhole,
    ρ.rename_of_nameless hrange]
  split
  · next hends =>
    obtain ⟨hstart, hstop⟩ := Bool.and_eq_true_iff.mp hends
    rw [hsame _ hstart, hsame _ hstop]
  · rfl

end Renaming

/-! ## Equality of renamed documents -/

namespace Renaming

variable (ρ : Renaming)

theorem isContainer_rename (v : Value) : (ρ.rename v).isContainer = v.isContainer := by
  cases v <;> rfl

theorem isNaN_rename (v : Value) : (ρ.rename v).isNaN = v.isNaN := by
  cases v <;> rfl

theorem alike_inField (named : Bool) (key : String) (a b : Value) :
    (ρ.inField named key a).alike (ρ.inField named key b) = a.alike b := by
  unfold inField
  split
  · exact ρ.alike_name a b
  · rfl

/-- Objects of the same kind keep equal fields. -/
theorem sameFields_rename (named : Bool) {xs ys : Fields}
    (h : ∀ field ∈ xs, ∀ y, (ρ.rename field.2).alike (ρ.rename y) = field.2.alike y) :
    Value.sameFields (ρ.renameFields named xs) (ρ.renameFields named ys) =
      Value.sameFields xs ys := by
  rw [Bool.eq_iff_iff, Value.sameFields_iff, Value.sameFields_iff, renameFields_eq, List.forall_mem_map]
  refine forall₂_congr fun field hfield => ?_
  rw [lookup_renameFields]
  cases ys.lookup field.1 with
  | none => simp
  | some y => simp [alike_inField, h field hfield]

theorem sameItems_rename {xs : List Value}
    (h : ∀ x ∈ xs, ∀ y, (ρ.rename x).alike (ρ.rename y) = x.alike y) (ys : List Value) :
    Value.sameItems (xs.map ρ.rename) (ys.map ρ.rename) = Value.sameItems xs ys := by
  induction xs generalizing ys with
  | nil =>
    cases ys with
    | nil => rfl
    | cons y ys => simp [Value.sameItems]
  | cons x xs ih =>
    cases ys with
    | nil => simp [Value.sameItems]
    | cons y ys =>
      have hhere := h x List.mem_cons_self y
      have hrest := ih (fun x hx => h x (List.mem_cons_of_mem _ hx)) ys
      unfold Value.alike at hhere
      rw [List.map_cons, List.map_cons, Value.sameItems, Value.sameItems, hhere, hrest]

/-- Values count as equal before and after a renaming, if no object has a field twice. -/
theorem same_rename {a : Value} (ha : PlainNames a) (b : Value) :
    (ρ.rename a).same (ρ.rename b) = a.same b := by
  induction a using Value.byParts generalizing b with
  | plain a hplain =>
    rw [ρ.rename_of_plain hplain]
    cases hb : b.isContainer with
    | false => rw [ρ.rename_of_plain hb]
    | true =>
      have hrenamed : (ρ.rename b).isContainer = true := by rwa [isContainer_rename]
      rw [Value.same_eq_false hplain hb, Value.same_eq_false hplain hrenamed]
  | arr items ih =>
    have halike : ∀ x ∈ items, ∀ y, (ρ.rename x).alike (ρ.rename y) = x.alike y := by
      intro x hx y
      rw [Value.alike, Value.alike, isNaN_rename, isNaN_rename,
        ih x hx (everyObject_arr_iff.mp ha x hx)]
    cases b with
    | arr others => simp only [rename_arr, Value.same, ρ.sameItems_rename halike]
    | obj fields => simp [rename, Value.same, Value.sameNumber, Value.number?]
    | _ => simp [rename, Value.same, Value.sameNumber, Value.number?]
  | obj fields ih =>
    obtain ⟨hdistinct, _, _, _, hfields⟩ := plainNames_obj_iff.mp ha
    have halike : ∀ field ∈ fields, ∀ y,
        (ρ.rename field.2).alike (ρ.rename y) = field.2.alike y := by
      intro field hfield y
      rw [Value.alike, Value.alike, isNaN_rename, isNaN_rename, ih field hfield (hfields field hfield)]
    cases b with
    | obj others =>
      simp only [rename, Value.same]
      by_cases hkind : isName (.obj fields) = isName (.obj others)
      · rw [← hkind, ρ.sameFields_rename _ halike]
        simp only [renameFields_eq, List.length_map]
      · -- Only one of the two is an identifier, so that their kinds differ, before and after.
        have hrenamed : ∀ named xs, isName (.obj (ρ.renameFields named xs)) = isName (.obj xs) :=
          fun named xs => isName_congr (ρ.text?_type_renameFields named xs)
        rw [sameFields_eq_false hdistinct hkind]
        refine sameFields_eq_false (by rwa [map_fst_renameFields]) ?_
        rwa [hrenamed, hrenamed]
    | arr items => simp [rename, Value.same, Value.sameNumber, Value.number?]
    | _ => simp [rename, Value.same, Value.sameNumber, Value.number?]

end Renaming

/-! ## The likeness of a renamed document -/

/-- The second value is the first one renamed, and the first one has plain names. -/
def Renamed (ρ : Renaming) (v w : Value) : Prop :=
  PlainNames v ∧ w = ρ.rename v

namespace Renamed

variable {ρ : Renaming} {v w : Value} {fs gs : Fields}

theorem of_plain (h : v.isContainer = false) : Renamed ρ v v := by
  refine ⟨?_, (ρ.rename_of_plain h).symm⟩
  cases v with
  | arr => cases h
  | obj => cases h
  | _ => rfl

theorem forall₂_items {items : List Value} (h : PlainNames (.arr items)) :
    List.Forall₂ (Renamed ρ) items (items.map ρ.rename) := by
  rw [List.forall₂_map_right_iff, List.forall₂_same]
  exact fun item hitem => ⟨everyObject_arr_iff.mp h item hitem, rfl⟩

theorem form (h : Renamed ρ v w) : SameForm (Renamed ρ) v w := by
  obtain ⟨hplain, rfl⟩ := h
  cases v with
  | arr items =>
    rw [ρ.rename_arr]
    exact .arr (forall₂_items hplain)
  | obj fields =>
    rw [Renaming.rename]
    refine .obj ?_
    rw [ρ.renameFields_eq, List.map_eq_nil_iff]
  | _ => exact .plain rfl

theorem field (h : Renamed ρ (.obj fs) (.obj gs)) (key : String) (hkey : key ≠ "name") :
    Renamed ρ (Fields.get fs key) (Fields.get gs key) := by
  obtain ⟨hplain, heq⟩ := h
  cases heq
  exact ⟨everyObject_get hplain key, ρ.get_renameFields _ fs hkey⟩

/-- Names that are renamed correspond, and so do those that are no texts. -/
theorem likeName (named : Bool) (h : PlainNames v) (hname : named = true ∨ v.text? = none) :
    LikeName ρ (Renamed ρ) v (ρ.inField named "name" (ρ.rename v)) := by
  have hform : SameForm (Renamed ρ) v (ρ.rename v) := form ⟨h, rfl⟩
  cases htext : v.text? with
  | none =>
    have heq : ρ.inField named "name" (ρ.rename v) = ρ.rename v := by
      unfold Renaming.inField
      split
      · exact ρ.rename_name htext
      · rfl
    rw [heq]
    exact .other hform htext
  | some s =>
    obtain rfl : named = true := hname.resolve_right (by rw [htext]; exact Option.some_ne_none s)
    cases v with
    | str t => exact .text t
    | _ => cases htext

theorem lookup_name (named : Bool) (h : PlainNames (.obj fs))
    (hname : named = true ∨ (Fields.get fs "name").text? = none) :
    Option.Rel (LikeName ρ (Renamed ρ)) (fs.lookup "name")
      ((ρ.renameFields named fs).lookup "name") := by
  have hvalue := everyObject_get h "name"
  unfold Fields.get at hvalue hname
  rw [ρ.lookup_renameFields]
  cases hlookup : fs.lookup "name" with
  | none => exact .none
  | some value =>
    rw [hlookup] at hvalue hname
    exact .some (likeName named hvalue hname)

/-- Renamed nodes have renamed children. -/
theorem edges_like (h : Renamed ρ v w) :
    List.Forall₂ (fun e d => e.step = d.step ∧ Renamed ρ e.child d.child) (edges v) (edges w) := by
  obtain ⟨hplain, rfl⟩ := h
  rw [ρ.edges_rename, List.forall₂_map_right_iff, List.forall₂_same]
  exact fun e he => ⟨rfl, everyObject_child hplain he, rfl⟩

/-- A renamed tree has the renamed nodes, in the same places. -/
theorem preorder_like (h : Renamed ρ v w) (path : Path) :
    List.Forall₂ (fun a b => a.path = b.path ∧ Renamed ρ a.node b.node) (preorder path v)
      (preorder path w) := by
  induction path, v using preorder.induct generalizing w with
  | case1 path v ih =>
    rw [preorder_eq, preorder_eq]
    refine .cons ⟨rfl, h⟩ (forall₂_flatMap h.edges_like fun e he d hed => ?_)
    rw [← hed.1]
    exact ih ⟨e, he⟩ hed.2

/-- Renamed nodes are in the same place. -/
theorem place (h : Renamed ρ v w) : ownLocation? v = ownLocation? w ∧ span v = span w := by
  obtain ⟨hplain, rfl⟩ := h
  cases v with
  | obj fields =>
    obtain ⟨_, _, hloc, _, _⟩ := plainNames_obj_iff.mp hplain
    constructor
    · simp only [ownLocation?, Renaming.rename, Value.get,
        ρ.get_renameFields _ fields (show "loc" ≠ "name" by decide), ρ.rename_of_nameless hloc]
    · simp only [span, Renaming.rename, ρ.spanOf_rename hplain]
  | _ => exact ⟨rfl, rfl⟩

end Renamed

theorem likeness_renamed (ρ : Renaming) : Likeness ρ (Renamed ρ) where
  form := Renamed.form
  field h key _ named := h.field key named
  named h kind := by
    obtain ⟨hplain, heq⟩ := h
    cases heq
    rw [kind]
    exact Renamed.lookup_name true hplain (.inl rfl)
  declared {fs gs id jd} h kind left right := by
    have hid := h.field "id" (by decide)
    obtain ⟨_, hdeclares, _⟩ := plainNames_obj_iff.mp h.1
    rw [left, right] at hid
    obtain ⟨hplain, heq⟩ := hid
    cases heq
    refine Renamed.lookup_name _ hplain ?_
    simp only [declaresIdentifier, left, kind, Bool.not_true, Bool.false_or, Bool.or_eq_true,
      Option.isNone_iff_eq_none] at hdeclares
    exact hdeclares.symm
  place h _ := h.place
  use h _ := by
    obtain ⟨hplain, heq⟩ := h
    cases heq
    rw [ρ.spanOf_rename hplain]
    cases spanOf _ with
    | none => exact .none
    | some s => exact .some ⟨.inl rfl, .inl rfl⟩
  edges h := by
    refine List.rel_filter (fun e d hed => ?_) h.edges_like
    dsimp only
    rw [hed.1]

end TreeLint
