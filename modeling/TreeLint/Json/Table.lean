/-
  Tables from values to values.

  Keys that are alike are one, so a whole number and the same number with a point are one key.
  A key keeps its place and its form when its entry is set again.
-/
import TreeLint.Json.Access
import TreeLint.Json.Printer

set_option autoImplicit false

namespace TreeLint.Json

/-- A table with its entries in the order in which the keys were first set. -/
structure Table where
  /-- The keys with their entries. -/
  entries : List (Value × Value)

namespace Table

/-- The table without entries. -/
def empty : Table :=
  ⟨[]⟩

/-- The number of keys. -/
def size (table : Table) : Nat :=
  table.entries.length

/-- The table that an object is. -/
def ofFields (fields : Fields) : Table :=
  ⟨fields.map fun (name, value) => (.str name, value)⟩

/-- The entry of a key. -/
def find? (table : Table) (key : Value) : Option Value :=
  (table.entries.find? fun entry => entry.1.alike key).map (·.2)

/-- Entries with one of them set. -/
def putEntry : List (Value × Value) → Value → Value → List (Value × Value)
  | [], key, value => [(key, value)]
  | (k, v) :: rest, key, value =>
    if k.alike key then (k, value) :: rest else (k, v) :: putEntry rest key value

/-- The table with one entry set. -/
def put (table : Table) (key value : Value) : Table :=
  ⟨putEntry table.entries key value⟩

/-- The key and the entry that a value of two elements gives. -/
def pairOf (v : Value) : Except Fault (Value × Value) := do
  match ← v.elements with
  | [key, value] => return (← key.key, value)
  | _ => .error .notPairs

/-- The table that a value gives: an object gives its fields, anything else one entry for each of
its elements, and a value that counts as empty gives none. -/
def ofValue (v : Value) : Except Fault Table := do
  if v.truthy then
    match v with
    | .obj fields => return ofFields fields
    | v =>
      (← v.elements).foldlM (fun table element => do
        let (key, value) ← pairOf element
        return table.put key value) empty
  else return empty

/-- The name of the field that stands for a key in a document. -/
def fieldName : Value → String
  | .str s => s
  | key => key.print

/-- The table as an object. -/
def toValue (table : Table) : Value :=
  .obj (table.entries.map fun (key, value) => (fieldName key, value))

end Table

end TreeLint.Json
