/-
  Values in messages.

  A text stands for itself when it is all there is to show, and in quotes inside a list or an
  object.  Numbers have the shortest form that reads back, with an exponent from ten to the sixteenth on and
  below a ten-thousandth.
-/
import TreeLint.Decimal.Shortest
import TreeLint.Json.Value
import TreeLint.Text.Quoted

set_option autoImplicit false

namespace TreeLint.Json.Value

/-- How floating-point numbers are written in messages. -/
def floatStyle : Decimal.Style :=
  { leastPlain := -4, leastScientific := 16, nan := "nan", infinity := "inf" }

mutual

/-- The form of a value inside a message, with texts in quotes. -/
def shown : Value → String
  | .null => "None"
  | .bool b => if b then "True" else "False"
  | .int n => toString n
  | .float x => floatStyle.write x
  | .str s => Text.quoted s
  | .arr items => "[" ++ String.intercalate ", " (shownItems items) ++ "]"
  | .obj fields => "\x7b" ++ String.intercalate ", " (shownFields fields) ++ "\x7d"
  | .link _ => "\x7b...\x7d"

/-- The forms of the items of a list. -/
def shownItems : List Value → List String
  | [] => []
  | item :: rest => shown item :: shownItems rest

/-- The forms of the fields of an object. -/
def shownFields : List (String × Value) → List String
  | [] => []
  | (key, value) :: rest => (Text.quoted key ++ ": " ++ shown value) :: shownFields rest

end

/-- The form of a value as a message of its own. -/
def display : Value → String
  | .str s => s
  | v => v.shown

end TreeLint.Json.Value
