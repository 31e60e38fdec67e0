/-
  Trees that differ in their ways back.

  Two values are compared after the ways back of their nodes have been moved to the end and changed by a
  function: the identity leaves only the order of fields out of account, a constant function leaves out
  where the ways lead, too.  Nothing that the rules read tells such values apart, and what they report of
  them is the same after the same change.
-/
import TreeLint.Proofs.Likeness.Rules
import TreeLint.Proofs.Likeness.Verdicts
import TreeLint.Proofs.Linking

set_option autoImplicit false

namespace TreeLint.Syntax

open TreeLint.Json TreeLint.Source TreeLint.Usage

/-! ## Settled values -/

/-- The value with the nodes that it is, or holds as a list, settled. -/
def settledValue (g : Value → Value) (v : Value) : Value :=
  rebuildField (fun _ => settle g) [] "" v

section Equations

variable (g : Value → Value)

theorem settledValue_arr (items : List Value) :
    settledValue g (.arr items) = .arr (items.map (settled g)) := by
  have hitems : ∀ item : Value × Nat, rebuild (fun _ => settle g) [⟨"", some item.2⟩] item.1 =
      settled g item.1 := fun item => rebuild_const (settle g) _ _ item.1
  have hplaces : items.zipIdx.map (fun item => settled g item.1) = items.map (settled g) := by
    rw [← Function.comp_def, ← List.map_map, List.zipIdx_map_fst]
  rw [settledValue, rebuildField_arr, List.map_congr_left fun item _ => hitems item, hplaces]

theorem settledValue_of_not_arr {v : Value} (h : ∀ items, v ≠ .arr items) :
    settledValue g v = settled g v := by
  rw [settledValue, rebuildField_of_not_arr _ _ _ h]
  exact rebuild_const (settle g) _ _ v

theorem settledValue_obj (fields : Fields) : settledValue g (.obj fields) = settled g (.obj fields) :=
  settledValue_of_not_arr g fun _ heq => by cases heq

theorem settled_arr (items : List Value) : settled g (.arr items) = .arr items :=
  rebuild_of_not_node _ _ rfl

theorem settledValue_of_plain {v : Value} (h : v.isContainer = false) : settledValue g v = v := by
  cases v with
  | arr => cases h
  | obj => cases h
  | _ => simp only [settledValue, rebuildField]

/-- Settling makes objects of objects and lists of lists. -/
theorem exists_settledValue_obj (fields : Fields) :
    ∃ settled, settledValue g (.obj fields) = .obj settled := by
  simp only [settledValue, rebuildField]
  split
  · exact ⟨_, rfl⟩
  · exact ⟨_, rfl⟩

theorem kind?_settled (v : Value) : kind? (settled g v) = kind? v :=
  kind?_rebuild (fun _ => touchesParent_settle g) [] v

/-- The fields of a node, with those that hold children settled. -/
def settledFields (fields : Fields) : Fields :=
  rebuildFields (fun _ => settle g) [] (childFields fields) fields

theorem settled_node {fields : Fields} (h : isNode (.obj fields) = true) :
    settled g (.obj fields) = .obj (settle g (settledFields g fields)) :=
  rebuild_node _ _ h

/-- The way back is none of the fields that hold children. -/
theorem lookup_settledFields (fields : Fields) (key : String) :
    (settledFields g fields).lookup key = (fields.lookup key).map fun v =>
      if (childFields fields).contains key then settledValue g v else v := by
  rw [settledFields, rebuildFields_eq, lookup_map_fields fields fun name v =>
    if (childFields fields).contains name then rebuildField (fun _ => settle g) [] name v else v]
  refine congrArg (fun f => (fields.lookup key).map f) (funext fun v => ?_)
  rw [settledValue, rebuildField_const (settle g) [] [] key ""]

end Equations

/-! ## The relation -/

/-- The values are the same once they are settled. -/
def SameSettled (g : Value → Value) (v w : Value) : Prop :=
  settledValue g v = settledValue g w

namespace SameSettled

variable {g : Value → Value} {v w : Value} {fs gs : Fields} {xs ys : List Value}

theorem refl (v : Value) : SameSettled g v v :=
  rfl

theorem of_settled (h : settled g v = settled g w) : SameSettled g v w := by
  by_cases hv : ∃ items, v = .arr items
  · obtain ⟨items, rfl⟩ := hv
    rw [settled_arr] at h
    by_cases hw : ∃ items, w = .arr items
    · obtain ⟨others, rfl⟩ := hw
      rw [settled_arr] at h
      rw [h]
      exact refl _
    · exact absurd h.symm (rebuild_ne_arr _ _ (fun others heq => hw ⟨others, heq⟩) items)
  · have hv' : ∀ items, v ≠ .arr items := fun items heq => hv ⟨items, heq⟩
    have hw : ∀ items, w ≠ .arr items := by
      rintro items rfl
      rw [settled_arr] at h
      exact rebuild_ne_arr _ _ hv' items h
    rw [SameSettled, settledValue_of_not_arr g hv', settledValue_of_not_arr g hw, h]

/-- Related objects are the same, or nodes whose settled fields are the same. -/
theorem obj_cases (h : SameSettled g (.obj fs) (.obj gs)) :
    fs = gs ∨ (isNode (.obj fs) = true ∧ isNode (.obj gs) = true ∧
      settle g (settledFields g fs) = settle g (settledFields g gs)) := by
  rw [SameSettled, settledValue_obj, settledValue_obj] at h
  have hkind : isNode (.obj fs) = isNode (.obj gs) := by
    rw [isNode, isNode, ← kind?_settled g, h, kind?_settled g]
  cases hnode : isNode (.obj fs) with
  | false =>
    rw [settled, settled, rebuild_of_not_node _ _ hnode, rebuild_of_not_node _ _ (hkind ▸ hnode)] at h
    cases h
    exact .inl rfl
  | true =>
    have hother : isNode (.obj gs) = true := hkind ▸ hnode
    rw [settled_node g hnode, settled_node g hother] at h
    exact .inr ⟨rfl, hother, Value.obj.inj h⟩

theorem length_eq (h : SameSettled g (.obj fs) (.obj gs)) : fs.length = gs.length := by
  rcases h.obj_cases with rfl | ⟨_, _, heq⟩
  · rfl
  · have hlength : ∀ fields : Fields, (settle g (settledFields g fields)).length = fields.length := by
      intro fields
      rw [length_settle, settledFields, rebuildFields_eq, List.length_map]
    rw [← hlength fs, heq, hlength gs]

theorem childFields_eq (h : SameSettled g (.obj fs) (.obj gs)) : childFields fs = childFields gs := by
  rcases h.obj_cases with rfl | ⟨_, _, heq⟩
  · rfl
  · have hfields : ∀ fields, childFields fields =
        childFields (settle g (rebuildFields (fun _ => settle g) [] (childFields fields) fields)) :=
      fun fields => (childFields_rebuilt (fun _ => touchesParent_settle g) [] fields).symm
    rw [hfields fs, hfields gs]
    exact congrArg childFields heq

/-- Fields other than the way back are related; they are the same if they hold no children. -/
theorem lookup_like (h : SameSettled g (.obj fs) (.obj gs)) (key : String) (hkey : key ≠ parentField) :
    Option.Rel (SameSettled g) (fs.lookup key) (gs.lookup key) ∧
      (key ∉ childFields fs → fs.lookup key = gs.lookup key) := by
  have hrefl : ∀ a : Option Value, Option.Rel (SameSettled g) a a := by
    intro a
    cases a with
    | none => exact .none
    | some v => exact .some (refl v)
  rcases h.obj_cases with rfl | ⟨_, _, heq⟩
  · exact ⟨hrefl _, fun _ => rfl⟩
  · have hlookup := congrArg (List.lookup key) heq
    rw [(touchesParent_settle g).lookup_eq _ hkey, (touchesParent_settle g).lookup_eq _ hkey,
      lookup_settledFields, lookup_settledFields, ← h.childFields_eq] at hlookup
    by_cases hchild : key ∈ childFields fs
    · refine ⟨?_, fun hnot => absurd hchild hnot⟩
      simp only [List.contains_iff_mem.mpr hchild, if_true] at hlookup
      cases hleft : fs.lookup key with
      | none =>
        rw [hleft] at hlookup
        rw [Option.map_eq_none_iff.mp hlookup.symm]
        exact .none
      | some a =>
        rw [hleft] at hlookup
        obtain ⟨b, hright, hab⟩ := Option.map_eq_some_iff.mp hlookup.symm
        rw [hright]
        exact .some hab.symm
    · have hnot : (childFields fs).contains key = false := by
        simpa using hchild
      simp only [hnot, Bool.false_eq_true, if_false, Option.map_id_fun', id] at hlookup
      rw [hlookup]
      exact ⟨hrefl _, fun _ => rfl⟩

theorem get_eq (h : SameSettled g (.obj fs) (.obj gs)) (key : String) (hkey : key ≠ parentField)
    (hchild : key ∉ childFields fs) : Fields.get fs key = Fields.get gs key := by
  rw [Fields.get, Fields.get, (h.lookup_like key hkey).2 hchild]

theorem field (h : SameSettled g (.obj fs) (.obj gs)) (key : String) (hkey : key ≠ parentField) :
    SameSettled g (Fields.get fs key) (Fields.get gs key) :=
  rel_getD (h.lookup_like key hkey).1 (refl _)

/-- A value related to one that is neither a list nor an object is that value. -/
theorem eq_of_plain (h : SameSettled g v w) (hv : v.isContainer = false) : v = w := by
  rw [SameSettled, settledValue_of_plain g hv] at h
  cases w with
  | arr ys =>
    rw [settledValue_arr] at h
    subst h
    cases hv
  | obj gs =>
    obtain ⟨fields, hfields⟩ := exists_settledValue_obj g gs
    rw [hfields] at h
    subst h
    cases hv
  | _ => rw [h, settledValue_of_plain g rfl]

theorem items (h : SameSettled g (.arr xs) (.arr ys)) :
    List.Forall₂ (fun x y => settled g x = settled g y) xs ys := by
  rw [SameSettled, settledValue_arr, settledValue_arr] at h
  have hrows := Value.arr.inj h
  rwa [← List.forall₂_eq_eq_eq, List.forall₂_map_left_iff, List.forall₂_map_right_iff] at hrows

/-- Related values are of the same form. -/
theorem form (h : SameSettled g v w) : SameForm (SameSettled g) v w := by
  cases hv : v.isContainer with
  | false =>
    rw [← h.eq_of_plain hv]
    exact .plain hv
  | true =>
    cases hw : w.isContainer with
    | false =>
      have heq := eq_of_plain (g := g) h.symm hw
      rw [heq, hv] at hw
      cases hw
    | true =>
      cases v with
      | arr xs =>
        cases w with
        | arr ys => exact .arr (h.items.imp fun _ _ => of_settled)
        | obj gs =>
          obtain ⟨fields, hfields⟩ := exists_settledValue_obj g gs
          rw [SameSettled, settledValue_arr, hfields] at h
          cases h
        | _ => cases hw
      | obj fs =>
        cases w with
        | arr ys =>
          obtain ⟨fields, hfields⟩ := exists_settledValue_obj g fs
          rw [SameSettled, settledValue_arr, hfields] at h
          cases h
        | obj gs =>
          refine .obj ?_
          rw [← List.length_eq_zero_iff, ← List.length_eq_zero_iff, h.length_eq]
        | _ => cases hw
      | _ => cases hv

/-- The children of related nodes are related, step by step. -/
theorem edges_like (h : SameSettled g v w) :
    List.Forall₂ (fun e d => e.step = d.step ∧ SameSettled g e.child d.child) (edges v) (edges w) := by
  cases h.form with
  | plain => exact List.forall₂_same.mpr fun e _ => ⟨rfl, refl _⟩
  | arr => exact .nil
  | @obj fs gs =>
    rcases h.obj_cases with rfl | ⟨hnode, hother, heq⟩
    · exact List.forall₂_same.mpr fun e _ => ⟨rfl, refl _⟩
    · have hsettled : settled g (.obj fs) = settled g (.obj gs) := by
        rw [settled_node g hnode, settled_node g hother, heq]
      have hedges := congrArg edges hsettled
      rw [settled, settled, edges_rebuild (fun _ => touchesParent_settle g) [] hnode,
        edges_rebuild (fun _ => touchesParent_settle g) [] hother, ← List.forall₂_eq_eq_eq,
        List.forall₂_map_left_iff, List.forall₂_map_right_iff] at hedges
      refine hedges.imp fun e d hed => ?_
      obtain ⟨hstep, hchild⟩ := Edge.mk.inj hed
      refine ⟨hstep, of_settled ?_⟩
      rw [settled, rebuild_const (settle g) [] [e.step], hchild, settled]
      exact rebuild_const (settle g) _ _ _

/-! ## Positions -/

/-- The ends of spans lie in the same places, as far as they can be compared. -/
theorem likeEnds (h : settled g v = settled g w) : LikeEnds v w := by
  cases (of_settled h).form with
  | plain => exact .inl rfl
  | arr =>
    rw [settled_arr, settled_arr] at h
    exact .inl h
  | obj => exact .inr ⟨rfl, rfl⟩

/-- The spans of related objects are related. -/
theorem spanOf_like (h : SameSettled g (.obj fs) (.obj gs)) :
    Option.Rel (RelatedSpans fun a b => settled g a = settled g b) (spanOf fs) (spanOf gs) := by
  have hstart := h.field "start" (by decide)
  have hstop := h.field "end" (by decide)
  have hplain : ∀ {a b : Value}, SameSettled g a b → a.whole?.isSome = true → a = b := by
    intro a b hab ha
    apply hab.eq_of_plain
    cases a with
    | arr => cases ha
    | obj => cases ha
    | _ => rfl
  unfold spanOf
  dsimp only
  rw [← hstart.form.whole?_eq, ← hstop.form.whole?_eq]
  split
  · next hwhole =>
    obtain ⟨hs, ht⟩ := Bool.and_eq_true_iff.mp hwhole
    rw [← hplain hstart hs, ← hplain hstop ht]
    exact .some ⟨rfl, rfl⟩
  · have hrange := h.field "range" (by decide)
    generalize Fields.get fs "range" = a at hrange ⊢
    generalize Fields.get gs "range" = b at hrange ⊢
    cases hrange.form with
    | @plain a ha =>
      cases a with
      | arr => cases ha
      | _ => exact .none
    | arr =>
      match hrange.items with
      | .nil => exact .none
      | .cons _ .nil => exact .none
      | .cons hfirst (.cons hlast .nil) => exact .some ⟨hfirst, hlast⟩
      | .cons _ (.cons _ (.cons _ _)) => exact .none
    | obj => exact .none

theorem span_like (h : SameSettled g v w) :
    Both (Option.Rel (RelatedSpans (SameSettled g))) (span v) (span w) := by
  cases h.form with
  | @plain v hv =>
    cases v with
    | null => exact .ok .none
    | obj => cases hv
    | _ => exact .error _
  | arr => exact .error _
  | @obj fs gs =>
    refine .ok ?_
    have hspan := h.spanOf_like
    generalize spanOf fs = s at hspan ⊢
    generalize spanOf gs = t at hspan ⊢
    cases hspan with
    | none => exact .none
    | some hends => exact .some ⟨of_settled hends.1, of_settled hends.2⟩

theorem ownLocation?_like (h : SameSettled g v w) :
    Both (Option.Rel (LikeLocations (SameSettled g))) (ownLocation? v) (ownLocation? w) := by
  have hget : Both (SameSettled g) (v.get "loc") (w.get "loc") := by
    cases h.form with
    | @plain v hv =>
      cases v with
      | obj => cases hv
      | _ => exact .error _
    | arr => exact .error _
    | obj => exact .ok (h.field "loc" (by decide))
  refine hget.bind fun a b hab => ?_
  cases hab.form with
  | @plain a ha =>
    cases a with
    | obj => cases ha
    | _ => exact .ok .none
  | arr => exact .ok .none
  | @obj fs gs =>
    have hstart := hab.field "start" (by decide)
    dsimp only
    generalize Fields.get fs "start" = a at hstart ⊢
    generalize Fields.get gs "start" = b at hstart ⊢
    cases hstart.form with
    | @plain a ha =>
      cases a with
      | obj => cases ha
      | _ => exact .ok .none
    | arr => exact .ok .none
    | obj => exact .ok (.some ⟨hstart.field "line" (by decide), hstart.field "column" (by decide)⟩)

end SameSettled

/-! ## What the rules see -/

section Rules

variable {g : Value → Value} {v w : Value} {fs gs : Fields}

theorem SameSettled.likeName (h : SameSettled g v w) :
    LikeName .identity (SameSettled g) v w := by
  cases hv : v.text? with
  | some s =>
    cases v with
    | str s =>
      rw [← h.eq_of_plain rfl]
      exact .text s
    | _ => cases hv
  | none => exact .other h.form hv

theorem SameSettled.lookup_name (h : SameSettled g (.obj fs) (.obj gs)) :
    Option.Rel (LikeName .identity (SameSettled g)) (fs.lookup "name") (gs.lookup "name") := by
  have hname := (h.lookup_like "name" (by decide)).1
  generalize fs.lookup "name" = a at hname ⊢
  generalize gs.lookup "name" = b at hname ⊢
  cases hname with
  | none => exact .none
  | some hvalue => exact .some hvalue.likeName

/-- The names of identifiers are no children. -/
theorem SameSettled.lookup_identifier (h : SameSettled g (.obj fs) (.obj gs))
    (hkind : isIdentifier (.obj fs) = .ok true) : fs.lookup "name" = gs.lookup "name" := by
  have htype : Fields.get fs "type" = .str "Identifier" := isText_iff.mp (Except.ok.inj hkind)
  refine (h.lookup_like "name" (by decide)).2 ?_
  rw [childFields_of_kind htype (by decide : listedFields? "Identifier" = some ["decorators", "typeAnnotation"])]
  decide

/-- No rule about functions or single statements can tell values apart that are the same once they are
settled. -/
theorem ruleLikeness_settled (g : Value → Value) :
    RuleLikeness (· = ·) (SameSettled g) (SameSettled g) where
  form h := h.form
  field h key hkey := h.field key hkey.2
  kind := by decide
  length h := h.length_eq
  empty := .refl _
  text s := .refl _
  named {fs gs} h hkind := by
    rw [h.lookup_identifier hkind]
    cases gs.lookup "name" with
    | none => exact .none
    | some v => exact .some rfl
  names := ⟨rfl, fun h => h ▸ rfl, fun h h' => h ▸ h' ▸ rfl⟩
  places := ⟨fun h => h.form, fun _ => .refl _⟩
  location h := h.ownLocation?_like
  span h := h.span_like

end Rules

/-! ## Linked trees -/

/-- The nodes of linked trees that are the same once they are settled correspond, and exports declare the
same of them.  The trees may stand at different places of different documents. -/
theorem likeVisits_linked {g : Value → Value} {root root' v w : Value} {path path' : Path}
    (h : SameSettled g v w) (hat : at? root path = some v) (hat' : at? root' path' = some w)
    (hlinked : IsLinked path v) (hlinked' : IsLinked path' w)
    (htop : isExportedDirectly root path v = isExportedDirectly root' path' w) :
    List.Forall₂ (LikeVisits (SameSettled g) root root') (preorder path v) (preorder path' w) := by
  have S := ruleLikeness_settled g
  induction path, v using preorder.induct generalizing path' w with
  | case1 path v ih =>
    rw [preorder_eq, preorder_eq]
    have hedges := forall₂_mem_right h.edges_like
    refine .cons ⟨h, htop⟩ (forall₂_flatMap hedges fun e he d hed => ?_)
    obtain ⟨hd, hstep, hchild⟩ := hed
    refine ih ⟨e, he⟩ hchild (at?_child hat he) (at?_child hat' hd) (hlinked.child he)
      (hlinked'.child hd) ?_
    rw [isExportedDirectly_child hat e.step (hlinked _ (self_mem_preorder path v) e he),
      isExportedDirectly_child hat' d.step (hlinked' _ (self_mem_preorder path' w) d hd), S.isKind_eq h,
      S.isKind_eq h, hstep]

end TreeLint.Syntax

namespace TreeLint.Rule

open TreeLint.Json TreeLint.Syntax

/-! ## Diagnostics -/

/-- The diagnostic with the values of its position settled. -/
def Diagnostic.settled (g : Value → Value) (d : Diagnostic) : Diagnostic :=
  { d with
    location := ⟨settledValue g d.location.line, settledValue g d.location.column⟩
    span := d.span.map fun s => ⟨settledValue g s.start, settledValue g s.stop⟩ }

/-- The position is given by values that are neither lists nor objects. -/
structure Diagnostic.HasPlainPosition (d : Diagnostic) : Prop where
  /-- The line. -/
  line : d.location.line.isContainer = false
  /-- The column. -/
  column : d.location.column.isContainer = false
  /-- The ends of the span. -/
  span : ∀ s, d.span = some s → s.start.isContainer = false ∧ s.stop.isContainer = false

theorem Diagnostic.hasPlainPosition_iff {d : Diagnostic} :
    d.HasPlainPosition ↔ d.location.line.isContainer = false ∧ d.location.column.isContainer = false ∧
      (d.span.all fun s => !s.start.isContainer && !s.stop.isContainer) = true := by
  simp only [Option.all_eq_true, Bool.and_eq_true, Bool.not_eq_true']
  exact ⟨fun h => ⟨h.line, h.column, h.span⟩, fun h => ⟨h.1, h.2.1, h.2.2⟩⟩

instance (d : Diagnostic) : Decidable d.HasPlainPosition :=
  decidable_of_iff _ Diagnostic.hasPlainPosition_iff.symm

section Diagnostics

variable {g : Value → Value} {d e : Diagnostic}

theorem settled_eq_of_like (h : LikeDiagnostics (SameSettled g) d e) : d.settled g = e.settled g := by
  obtain ⟨hrule, hid, hmessage, ⟨hline, hcolumn⟩, hspan⟩ := h
  unfold Diagnostic.settled
  rw [hrule, hid, hmessage, show settledValue g d.location.line = _ from hline,
    show settledValue g d.location.column = _ from hcolumn]
  congr 1
  generalize d.span = s at hspan ⊢
  generalize e.span = t at hspan ⊢
  cases hspan with
  | none => rfl
  | @some s t hends =>
    rw [Option.map_some, Option.map_some, show settledValue g s.start = _ from hends.1,
      show settledValue g s.stop = _ from hends.2]

/-- Diagnostics with plain positions say where they are found whatever the ways back. -/
theorem eq_of_plainPosition (h : LikeDiagnostics (SameSettled g) d e) (hd : d.HasPlainPosition) :
    d = e := by
  apply LikeDiagnostics.eq
  obtain ⟨hrule, hid, hmessage, ⟨hline, hcolumn⟩, hspan⟩ := h
  refine ⟨hrule, hid, hmessage, ⟨hline.eq_of_plain hd.line, hcolumn.eq_of_plain hd.column⟩, ?_⟩
  have hplain := hd.span
  generalize d.span = s at hspan hplain ⊢
  generalize e.span = t at hspan ⊢
  cases hspan with
  | none => exact .none
  | some hends =>
    obtain ⟨hstart, hstop⟩ := hplain _ rfl
    exact .some ⟨hends.1.eq_of_plain hstart, hends.2.eq_of_plain hstop⟩

theorem map_settled_of_like {ds es : List Diagnostic}
    (h : List.Forall₂ (LikeDiagnostics (SameSettled g)) ds es) :
    ds.map (Diagnostic.settled g) = es.map (Diagnostic.settled g) :=
  map_eq_of_forall₂ h fun _ _ => settled_eq_of_like

theorem eq_of_plainPositions {ds es : List Diagnostic}
    (h : List.Forall₂ (LikeDiagnostics (SameSettled g)) ds es)
    (hplain : ∀ d ∈ ds, d.HasPlainPosition) : ds = es := by
  induction h with
  | nil => rfl
  | cons hhere _ ih =>
    rw [eq_of_plainPosition hhere (hplain _ List.mem_cons_self),
      ih fun d hd => hplain d (List.mem_cons_of_mem _ hd)]

end Diagnostics

end TreeLint.Rule
