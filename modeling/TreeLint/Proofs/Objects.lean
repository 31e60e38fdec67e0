/-
  The objects of a document.

  A test on the fields of an object can be asked of every object in a document, at any depth.  The test
  here is whether the names of the fields are distinct, as they are in every document that is read from a
  text: a field that is written twice is set twice.
-/
import TreeLint.Json.Reader
import TreeLint.Syntax.Node

set_option autoImplicit false

namespace TreeLint.Json

/-! ## Tests on all objects of a document -/

mutual

/-- The test holds for the fields of every object of a document. -/
def everyObject (test : Fields → Bool) : Value → Bool
  | .arr items => everyObjectOfItems test items
  | .obj fields => test fields && everyObjectOfFields test fields
  | _ => true

/-- The test holds for every object in the items. -/
def everyObjectOfItems (test : Fields → Bool) : List Value → Bool
  | [] => true
  | item :: rest => everyObject test item && everyObjectOfItems test rest

/-- The test holds for every object in the fields. -/
def everyObjectOfFields (test : Fields → Bool) : List (String × Value) → Bool
  | [] => true
  | (_, value) :: rest => everyObject test value && everyObjectOfFields test rest

end

theorem everyObject_arr_iff {test : Fields → Bool} {items : List Value} :
    everyObject test (.arr items) = true ↔ ∀ v ∈ items, everyObject test v = true := by
  rw [everyObject]
  induction items with
  | nil => simp [everyObjectOfItems]
  | cons item rest ih => rw [everyObjectOfItems, Bool.and_eq_true, ih, List.forall_mem_cons]

theorem everyObject_obj_iff {test : Fields → Bool} {fields : Fields} :
    everyObject test (.obj fields) = true ↔
      test fields = true ∧ ∀ field ∈ fields, everyObject test field.2 = true := by
  rw [everyObject, Bool.and_eq_true]
  refine and_congr_right fun _ => ?_
  generalize fields = row
  induction row with
  | nil => simp [everyObjectOfFields]
  | cons field rest ih =>
    obtain ⟨key, value⟩ := field
    rw [everyObjectOfFields, Bool.and_eq_true, ih, List.forall_mem_cons]

/-- A test on all objects holds in every field. -/
theorem everyObject_get {test : Fields → Bool} {fields : Fields}
    (h : everyObject test (.obj fields) = true) (key : String) :
    everyObject test (Fields.get fields key) = true := by
  unfold Fields.get
  cases hlookup : fields.lookup key with
  | none => rfl
  | some value => exact (everyObject_obj_iff.mp h).2 _ (mem_of_lookup_eq_some hlookup)

/-! ## Distinct names -/

/-- No two fields have the same name. -/
def distinctNames (fields : Fields) : Bool :=
  decide (fields.map Prod.fst).Nodup

theorem distinctNames_iff {fields : Fields} :
    distinctNames fields = true ↔ (fields.map Prod.fst).Nodup :=
  decide_eq_true_iff

/-- Where names are distinct, each field is the one that is found under its name. -/
theorem lookup_of_mem {fields : Fields} (h : (fields.map Prod.fst).Nodup) {field : String × Value}
    (hfield : field ∈ fields) : fields.lookup field.1 = some field.2 := by
  induction fields with
  | nil => cases hfield
  | cons first rest ih =>
    obtain ⟨hfirst, hrest⟩ := List.nodup_cons.mp h
    rw [List.lookup_cons]
    rcases List.mem_cons.mp hfield with rfl | hmem
    · rw [beq_self_eq_true]
    · have hne : field.1 ≠ first.1 := fun heq => hfirst (heq ▸ List.mem_map_of_mem hmem)
      rw [beq_false_of_ne hne, ih hrest hmem]

namespace Fields

/-- Setting a field that is there keeps the names of the fields. -/
theorem map_fst_put {fields : Fields} {key : String} {v : Value} (h : fields.lookup key = some v)
    (w : Value) : (put fields key w).map Prod.fst = fields.map Prod.fst := by
  induction fields with
  | nil => cases h
  | cons field rest ih =>
    obtain ⟨k, u⟩ := field
    by_cases hk : k = key
    · simp [put, hk]
    · rw [List.lookup_cons, beq_false_of_ne (Ne.symm hk)] at h
      simp [put, hk, ih h]

theorem mem_put {fields : Fields} {key : String} {v : Value} {field : String × Value}
    (h : field ∈ put fields key v) : field = (key, v) ∨ field ∈ fields := by
  induction fields with
  | nil => exact .inl (List.mem_singleton.mp h)
  | cons first rest ih =>
    obtain ⟨k, u⟩ := first
    rw [put] at h
    split at h
    · next hk =>
      subst hk
      rcases List.mem_cons.mp h with heq | hmem
      · exact .inl heq
      · exact .inr (List.mem_cons_of_mem _ hmem)
    · rcases List.mem_cons.mp h with rfl | hmem
      · exact .inr List.mem_cons_self
      · exact (ih hmem).imp_right (List.mem_cons_of_mem _)

/-- Setting a field keeps the names distinct. -/
theorem nodup_put {fields : Fields} (h : (fields.map Prod.fst).Nodup) (key : String) (v : Value) :
    ((put fields key v).map Prod.fst).Nodup := by
  induction fields with
  | nil => simp [put]
  | cons first rest ih =>
    obtain ⟨k, u⟩ := first
    obtain ⟨hfirst, hrest⟩ := List.nodup_cons.mp h
    rw [put]
    split
    · exact h
    · next hk =>
      refine List.nodup_cons.mpr ⟨fun hmem => ?_, ih hrest⟩
      obtain ⟨field, hfield, hname⟩ := List.mem_map.mp hmem
      rcases mem_put hfield with rfl | hold
      · exact hk hname.symm
      · exact hfirst (List.mem_map.mpr ⟨field, hold, hname⟩)

end Fields

/-! ## Documents that are read -/

/-- What is read, if something is, has the property. -/
def Yields {α : Type} (outcome : Except ReadError (α × List Char)) (P : α → Prop) : Prop :=
  ∀ a rest, outcome = .ok (a, rest) → P a

namespace Yields

variable {α β : Type} {P : α → Prop} {Q : β → Prop}

theorem ok {a : α} {rest : List Char} (h : P a) : Yields (.ok (a, rest)) P := by
  rintro _ _ ⟨⟩
  exact h

theorem error (e : ReadError) : Yields (α := α) (.error e) P := by
  rintro _ _ ⟨⟩

theorem bind {x : Except ReadError (α × List Char)}
    {f : α × List Char → Except ReadError (β × List Char)} (h : Yields x P)
    (hf : ∀ a rest, P a → Yields (f (a, rest)) Q) : Yields (x >>= f) Q := by
  cases x with
  | error e => exact .error e
  | ok read => exact hf read.1 read.2 (h read.1 read.2 rfl)

theorem any (x : Except ReadError (α × List Char)) : Yields x fun _ => True :=
  fun _ _ _ => trivial

end Yields

/-- The names of the fields are distinct in every object of the document. -/
def HasDistinctNames (v : Value) : Prop :=
  everyObject distinctNames v = true

theorem hasDistinctNames_arr_iff {items : List Value} :
    HasDistinctNames (.arr items) ↔ ∀ item ∈ items, HasDistinctNames item :=
  everyObject_arr_iff

theorem hasDistinctNames_obj_iff {fields : Fields} :
    HasDistinctNames (.obj fields) ↔
      (fields.map Prod.fst).Nodup ∧ ∀ field ∈ fields, HasDistinctNames field.2 := by
  rw [HasDistinctNames, everyObject_obj_iff, distinctNames_iff]
  rfl

theorem yields_readNumber (cs : List Char) : Yields (readNumber cs) HasDistinctNames := by
  unfold readNumber
  split
  dsimp only
  split
  · exact .error _
  · split
    · split
      · exact .error _
      · exact .ok rfl
    · exact .ok rfl

theorem yields_readPlain (cs : List Char) : Yields (readPlain cs) HasDistinctNames := by
  have hnames : ∀ named ∈ names, HasDistinctNames named.2 := by
    simp only [names, List.forall_mem_cons]
    exact ⟨rfl, rfl, rfl, rfl, rfl, rfl, by simp⟩
  unfold readPlain
  split
  · next hfound => exact .ok (hnames _ (List.mem_of_find?_eq_some hfound))
  · exact yields_readNumber cs

/-- Setting a field in an object whose names are distinct, to a value of that kind. -/
theorem HasDistinctNames.put {fields : Fields} {v : Value} (h : HasDistinctNames (.obj fields))
    (key : String) (hv : HasDistinctNames v) : HasDistinctNames (.obj (Fields.put fields key v)) := by
  obtain ⟨hnames, hvalues⟩ := hasDistinctNames_obj_iff.mp h
  refine hasDistinctNames_obj_iff.mpr ⟨Fields.nodup_put hnames key v, fun field hfield => ?_⟩
  rcases Fields.mem_put hfield with rfl | hold
  · exact hv
  · exact hvalues field hold

/-- Along the recursion of the reader: the fields that are already read are distinct. -/
theorem yields_value_items_fields (fuel : Nat) :
    (∀ cs, Yields (readValue fuel cs) HasDistinctNames) ∧
      (∀ cs, Yields (readItems fuel cs) fun items => HasDistinctNames (.arr items)) ∧
      ∀ done cs, HasDistinctNames (.obj done) →
        Yields (readFields fuel done cs) fun fields => HasDistinctNames (.obj fields) := by
  induction fuel with
  | zero => exact ⟨fun _ => .error _, fun _ => .error _, fun _ _ _ => .error _⟩
  | succ fuel ih =>
    obtain ⟨hvalue, hitems, hfields⟩ := ih
    refine ⟨fun cs => ?_, fun cs => ?_, fun done cs hdone => ?_⟩
    · unfold readValue
      split
      · exact .bind (.any _) fun _ _ _ => .ok rfl
      · split
        · exact .ok rfl
        · exact .bind (hitems _) fun _ _ h => .ok h
      · split
        · exact .ok rfl
        · exact .bind (hfields [] _ rfl) fun _ _ h => .ok h
      · exact yields_readPlain cs
    · unfold readItems
      refine .bind (hvalue cs) fun item rest hitem => ?_
      dsimp only
      split
      · exact .ok (hasDistinctNames_arr_iff.mpr (List.forall_mem_singleton.mpr hitem))
      · refine .bind (hitems _) fun items _ h => .ok (hasDistinctNames_arr_iff.mpr ?_)
        exact List.forall_mem_cons.mpr ⟨hitem, hasDistinctNames_arr_iff.mp h⟩
      · exact .error _
    · unfold readFields
      split
      · refine .bind (.any _) fun key rest _ => ?_
        dsimp only
        split
        · refine .bind (hvalue _) fun value rest hread => ?_
          have hput := hdone.put key hread
          dsimp only
          split
          · exact .ok hput
          · exact hfields _ _ hput
          · exact .error _
        · exact .error _
      · exact .error _

/-- In a document that is read the names of fields are distinct. -/
theorem hasDistinctNames_of_read {cs : List Char} {document : Value} (h : read cs = .ok document) :
    HasDistinctNames document := by
  have hvalue := (yields_value_items_fields (2 * cs.length + 2)).1 (skipBlanks cs)
  unfold read at h
  cases hread : readValue (2 * cs.length + 2) (skipBlanks cs) with
  | error error =>
    rw [hread] at h
    cases h
  | ok result =>
    rw [hread] at h
    dsimp only [Bind.bind, Except.bind] at h
    split at h
    · cases h
      exact hvalue result.1 result.2 hread
    · cases h

end TreeLint.Json

namespace TreeLint.Syntax

open TreeLint.Json

/-- A test on all objects holds in every child. -/
theorem everyObject_child {test : Fields → Bool} {v : Value} {e : Edge}
    (h : everyObject test v = true) (he : e ∈ edges v) : everyObject test e.child = true := by
  cases v with
  | obj fields =>
    rw [edges] at he
    obtain ⟨key, _, he⟩ := List.mem_flatMap.mp he
    have hvalue := everyObject_get h key
    generalize Fields.get fields key = value at he hvalue
    unfold fieldEdges at he
    split at he
    · obtain ⟨⟨item, i⟩, hitem, heq⟩ := List.mem_filterMap.mp he
      dsimp only at heq
      split at heq
      · cases heq
        exact everyObject_arr_iff.mp hvalue item (List.fst_mem_of_mem_zipIdx hitem)
      · cases heq
    · split at he
      · rw [List.mem_singleton.mp he]
        exact hvalue
      · cases he
  | _ => cases he

end TreeLint.Syntax
