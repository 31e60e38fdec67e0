/-
  Reading a value whose kind is not known.

  Each operation either finds what it needs or ends with the cause: a field is asked of objects
  only, a length of texts, lists and objects, and so on.
-/
import TreeLint.Json.Order

set_option autoImplicit false

namespace TreeLint.Json.Value

/-- The value of a field of an object, the absent value when there is no such field. -/
def get (v : Value) (key : String) : Except Fault Value :=
  match v with
  | .obj fields => .ok (Fields.get fields key)
  | _ => .error .notObject

/-- The value of a field that has to be there. -/
def require (v : Value) (key : String) : Except Fault Value :=
  match v with
  | .obj fields =>
    match fields.lookup key with
    | some value => .ok value
    | none => .error .noField
  | _ => .error .unsuited

/-- The value is the absent one. -/
def isNull : Value → Bool
  | .null => true
  | _ => false

/-- The value is an object. -/
def isObject : Value → Bool
  | .obj _ => true
  | _ => false

/-- The value is the given text. -/
def isText (v : Value) (text : String) : Bool :=
  match v with
  | .str s => s == text
  | _ => false

/-- The text that a value is. -/
def text? : Value → Option String
  | .str s => some s
  | _ => none

/-- Whether a value counts as present: neither absent, nor false, nor zero, nor empty. -/
def truthy : Value → Bool
  | .null => false
  | .bool b => b
  | .int n => n != 0
  | .float x => !(x == 0)
  | .str s => !s.isEmpty
  | .arr items => !items.isEmpty
  | .obj fields => !fields.isEmpty
  | .link _ => true

/-- The value itself if it counts as present, else the empty list. -/
def orEmpty (v : Value) : Value :=
  if v.truthy then v else .arr []

/-- The number of characters, items or fields. -/
def size : Value → Except Fault Nat
  | .str s => .ok s.length
  | .arr items => .ok items.length
  | .obj fields => .ok fields.length
  | _ => .error .unsuited

/-- The items of a list, the characters of a text, or the names of an object's fields. -/
def elements : Value → Except Fault (List Value)
  | .str s => .ok (s.toList.map fun c => .str (String.singleton c))
  | .arr items => .ok items
  | .obj fields => .ok (fields.map fun field => .str field.1)
  | _ => .error .unsuited

/-- The place in a row of the given length that an index names.  A negative index counts from the
end. -/
def place? (length : Nat) (index : Int) : Option Nat :=
  if 0 ≤ index then
    if index < length then some index.toNat else none
  else
    if -index ≤ length then some (index + length).toNat else none

/-- The item of a list or character of a text at an index; an object has none. -/
def item (v : Value) (index : Int) : Except Fault Value :=
  match v with
  | .obj _ => .error .noField
  | v => do
    let row ← v.elements
    match (place? row.length index).bind (row[·]?) with
    | some item => return item
    | none => .error .outOfRange

/-- The list with the item at an index set.  An index is a whole number, and a truth value counts as
one. -/
def setItem (items : List Value) (index value : Value) : Except Fault (List Value) :=
  match index.whole? with
  | none => .error .unsuited
  | some index =>
    match place? items.length index with
    | some place => .ok (items.set place value)
    | none => .error .outOfRange

/-- The last item of a list or character of a text; an object has none. -/
def last (v : Value) : Except Fault Value :=
  v.item (-1)

/-- The only item of a list or character of a text, if there is exactly one.  An object with one
field has no first item to give. -/
def only : Value → Except Fault (Option Value)
  | .arr [item] => .ok (some item)
  | .arr _ => .ok none
  | .str s => .ok (if s.length = 1 then some (.str s) else none)
  | .obj [_] => .error .noField
  | .obj _ => .ok none
  | _ => .error .unsuited

/-- The only item is no larger than what it was taken from. -/
theorem sizeOf_only_le {v item : Value} (h : v.orEmpty.only = .ok (some item)) :
    sizeOf item ≤ sizeOf v := by
  unfold orEmpty at h
  split at h
  · unfold only at h
    split at h
    · simp at h
      subst h
      simp
      omega
    · simp at h
    · split at h
      · simp at h
        simp [← h]
      · simp at h
    · simp at h
    · simp at h
    · simp at h
  · simp [only] at h

/-- The value may be the key of a table: it is neither a list nor an object. -/
def isKey : Value → Bool
  | .arr _ | .obj _ | .link _ => false
  | _ => true

/-- The value as the key of a table. -/
def key (v : Value) : Except Fault Value :=
  if v.isKey then .ok v else .error .unsuited

/-- The value, looked up in a set of texts. -/
def isOneOf (v : Value) (texts : List String) : Except Fault Bool :=
  match v with
  | .str s => .ok (texts.contains s)
  | .arr _ | .obj _ | .link _ => .error .unsuited
  | _ => .ok false

end TreeLint.Json.Value
