/-
  Documents.

  A value is one of the six kinds that a JSON text can hold, with two refinements.  A number written
  with neither a point nor an exponent is a whole number of any size.  A value may also be a link: a
  reference to another place of the same document, given by the path that leads there from the root.
  Links are never read from text; an analysis puts them in.

  The fields of an object keep the order in which they were written.
-/
set_option autoImplicit false

namespace TreeLint.Json

/-- One step down in a document: into a field, or into one item of a field that holds a list. -/
structure Step where
  /-- The name of the field. -/
  field : String
  /-- The position in the list, when the field holds one. -/
  index : Option Nat
deriving DecidableEq, Repr, Inhabited

/-- The way from the root to a place, with the last step first. -/
abbrev Path := List Step

/-- A document, or a part of one. -/
inductive Value where
  /-- The absent value. -/
  | null
  /-- A truth value. -/
  | bool (b : Bool)
  /-- A whole number. -/
  | int (n : Int)
  /-- A floating-point number. -/
  | float (x : Float)
  /-- A text. -/
  | str (s : String)
  /-- A list. -/
  | arr (items : List Value)
  /-- An object with its fields in order. -/
  | obj (fields : List (String × Value))
  /-- A reference to the place that the path leads to. -/
  | link (path : Path)
deriving Inhabited

/-- The fields of an object, in order. -/
abbrev Fields := List (String × Value)

/-- The most digits that a whole number may have in a text. -/
def digitLimit : Nat := 4300

/-! ## Fields -/

namespace Fields

/-- The value of a field, the absent value when there is no such field. -/
def get (fields : Fields) (key : String) : Value :=
  (fields.lookup key).getD .null

/-- The fields with one of them set: in its place when it is there, at the end when it is new. -/
def put : Fields → String → Value → Fields
  | [], key, value => [(key, value)]
  | (k, v) :: rest, key, value =>
    if k = key then (k, value) :: rest else (k, v) :: put rest key value

/-- A field that was set holds the new value. -/
theorem lookup_put_self (fields : Fields) (key : String) (value : Value) :
    (put fields key value).lookup key = some value := by
  induction fields with
  | nil => simp [put]
  | cons field rest ih =>
    obtain ⟨k, v⟩ := field
    by_cases hk : k = key
    · simp [put, hk]
    · have hne : (key == k) = false := by simpa using Ne.symm hk
      simp [put, hk, List.lookup_cons, hne, ih]

/-- Setting a field leaves every other field as it is. -/
theorem lookup_put_of_ne (fields : Fields) {key other : String} (value : Value)
    (h : other ≠ key) : (put fields key value).lookup other = fields.lookup other := by
  have hother : (other == key) = false := by simpa using h
  induction fields with
  | nil => simp [put, List.lookup_cons, hother]
  | cons field rest ih =>
    obtain ⟨k, v⟩ := field
    by_cases hk : k = key
    · subst hk
      simp [put, List.lookup_cons, hother]
    · simp only [put, hk, if_false, List.lookup_cons, ih]

@[simp] theorem get_put_self (fields : Fields) (key : String) (value : Value) :
    get (put fields key value) key = value := by
  simp [get, lookup_put_self]

theorem get_put_of_ne (fields : Fields) {key other : String} (value : Value)
    (h : other ≠ key) : get (put fields key value) other = get fields other := by
  simp [get, lookup_put_of_ne fields value h]

end Fields

/-! ## Parts are smaller than the whole -/

/-- An item of a list is smaller than the list. -/
theorem sizeOf_lt_of_mem {items : List Value} {v : Value} (h : v ∈ items) :
    sizeOf v < sizeOf (Value.arr items) := by
  have := List.sizeOf_lt_of_mem h
  simp only [Value.arr.sizeOf_spec]
  omega

/-- The value of a field is smaller than the object. -/
theorem sizeOf_lt_of_mem_fields {fields : Fields} {key : String} {v : Value}
    (h : (key, v) ∈ fields) : sizeOf v < sizeOf (Value.obj fields) := by
  have hmem := List.sizeOf_lt_of_mem h
  simp only [Prod.mk.sizeOf_spec] at hmem
  simp only [Value.obj.sizeOf_spec]
  omega

/-- A field that is found is one of the fields. -/
theorem mem_of_lookup_eq_some {fields : Fields} {key : String} {v : Value}
    (h : fields.lookup key = some v) : (key, v) ∈ fields := by
  induction fields with
  | nil => cases h
  | cons field rest ih =>
    obtain ⟨k, w⟩ := field
    rw [List.lookup_cons] at h
    by_cases hk : key = k
    · subst hk
      rw [beq_self_eq_true] at h
      cases h
      exact List.mem_cons_self
    · rw [beq_false_of_ne hk] at h
      exact List.mem_cons_of_mem _ (ih h)

/-- A field that is found is smaller than the object. -/
theorem sizeOf_lt_of_lookup {fields : Fields} {key : String} {v : Value}
    (h : fields.lookup key = some v) : sizeOf v < sizeOf (Value.obj fields) :=
  sizeOf_lt_of_mem_fields (mem_of_lookup_eq_some h)

/-- The value of any field, present or not, is smaller than the object. -/
theorem sizeOf_get_lt (fields : Fields) (key : String) :
    sizeOf (Fields.get fields key) < sizeOf (Value.obj fields) := by
  unfold Fields.get
  cases h : fields.lookup key with
  | none =>
    rw [Option.getD_none, Value.null.sizeOf_spec, Value.obj.sizeOf_spec]
    cases fields with
    | nil => decide
    | cons field rest =>
      rw [List.cons.sizeOf_spec]
      omega
  | some v => exact sizeOf_lt_of_lookup h

end TreeLint.Json
