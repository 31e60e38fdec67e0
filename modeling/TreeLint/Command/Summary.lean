/-
  Counting what was found.
-/
import TreeLint.Json.Table

set_option autoImplicit false

namespace TreeLint.Command

open TreeLint.Json

/-- How many items there are of each severity, and of each rule. -/
structure Summary where
  /-- The number of errors. -/
  errors : Nat
  /-- The number of all other items. -/
  warnings : Nat
  /-- The number of items of each rule that is named. -/
  byRule : Table

namespace Summary

/-- The summary of nothing. -/
def empty : Summary :=
  ⟨0, 0, .empty⟩

/-- The number of all items. -/
def total (summary : Summary) : Nat :=
  summary.errors + summary.warnings

/-- The table with one more for a rule. -/
def countRule (byRule : Table) (rule : Value) : Table :=
  match byRule.find? rule with
  | some (.int n) => byRule.put rule (.int (n + 1))
  | _ => byRule.put rule (.int 1)

/-- Whether an item with these fields says that it is an error. -/
def isError (fields : Fields) : Except Fault Bool := do
  match fields.lookup "severity" with
  | some severity => return (← severity.key).isText "error"
  | none => return false

/-- The summary with one more error, or one more of the other items. -/
def countSeverity (summary : Summary) (isError : Bool) : Summary :=
  if isError then { summary with errors := summary.errors + 1 }
  else { summary with warnings := summary.warnings + 1 }

/-- The summary with one more item.  An item is an error if it says so, and a warning in any other
case. -/
def add (summary : Summary) (item : Value) : Except Fault Summary := do
  match item with
  | .obj fields =>
    let counted := summary.countSeverity (← isError fields)
    let rule := Fields.get fields "rule"
    if rule.truthy then
      return { counted with byRule := countRule counted.byRule (← rule.key) }
    else return counted
  | _ => .error .notObject

/-- The summary of a list of items. -/
def of (items : Value) : Except Fault Summary := do
  (← items.elements).foldlM add empty

/-- The summary in a document. -/
def toValue (summary : Summary) : Value :=
  .obj [("error", .int summary.errors), ("warning", .int summary.warnings),
    ("total", .int summary.total), ("by_rule", summary.byRule.toValue)]

end Summary

end TreeLint.Command
