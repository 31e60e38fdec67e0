/-
  Documents as text.

  The text has one line, a blank after every comma and colon, and ASCII characters only: all others
  are written by the four hexadecimal digits of their UTF-16 units.  A value that leads back to
  itself is not written out, and neither is a whole number that could not be read again.
-/
import TreeLint.Decimal.Shortest
import TreeLint.Fault
import TreeLint.Json.Value
import TreeLint.Text.Hex

set_option autoImplicit false

namespace TreeLint.Json.Value

/-- How floating-point numbers are written in documents. -/
def documentFloat : Decimal.Style :=
  { leastPlain := -4, leastScientific := 16, nan := "NaN", infinity := "Infinity" }

/-- The escape of one UTF-16 unit. -/
def escapeUnit (n : Nat) : List Char :=
  '\\' :: 'u' :: Text.hexDigits 4 n

/-- One character inside a text. -/
def escapeChar (c : Char) : List Char :=
  if c = '"' ∨ c = '\\' then ['\\', c]
  else if c = '\n' then ['\\', 'n']
  else if c = '\r' then ['\\', 'r']
  else if c = '\t' then ['\\', 't']
  else if c.toNat = 8 then ['\\', 'b']
  else if c.toNat = 12 then ['\\', 'f']
  else if 32 ≤ c.toNat ∧ c.toNat < 127 then [c]
  else if c.toNat < 0x10000 then escapeUnit c.toNat
  else
    let n := c.toNat - 0x10000
    escapeUnit (0xd800 + n / 0x400) ++ escapeUnit (0xdc00 + n % 0x400)

/-- A text in its quotes. -/
def printText (s : String) : String :=
  String.ofList ('"' :: s.toList.flatMap escapeChar ++ ['"'])

mutual

/-- The text of a document.  A link has no text of its own and is written as an absent value. -/
def print : Value → String
  | .null => "null"
  | .bool b => if b then "true" else "false"
  | .int n => toString n
  | .float x => documentFloat.write x
  | .str s => printText s
  | .arr items => "[" ++ String.intercalate ", " (printItems items) ++ "]"
  | .obj fields => "\x7b" ++ String.intercalate ", " (printFields fields) ++ "\x7d"
  | .link _ => "null"

/-- The texts of the items of a list. -/
def printItems : List Value → List String
  | [] => []
  | item :: rest => print item :: printItems rest

/-- The texts of the fields of an object. -/
def printFields : List (String × Value) → List String
  | [] => []
  | (key, value) :: rest => (printText key ++ ": " ++ print value) :: printFields rest

end

mutual

/-- What keeps a value from being written out, if anything does: the first whole number with too many
digits, or the first link.  A link leads from a part to what holds it, so a value with a link in it
would have to be written inside itself. -/
def obstacle? : Value → Option Fault
  | .int n => if digitLimit < (toString n.natAbs).length then some .tooManyDigits else none
  | .arr items => obstacleInItems? items
  | .obj fields => obstacleInFields? fields
  | .link _ => some .circular
  | _ => none

/-- What keeps the items of a list from being written out. -/
def obstacleInItems? : List Value → Option Fault
  | [] => none
  | item :: rest => (obstacle? item).or (obstacleInItems? rest)

/-- What keeps the fields of an object from being written out. -/
def obstacleInFields? : List (String × Value) → Option Fault
  | [] => none
  | (_, value) :: rest => (obstacle? value).or (obstacleInFields? rest)

end

/-- The text of a document that is to be written out. -/
def write (v : Value) : Except Fault String :=
  match v.obstacle? with
  | some fault => .error fault
  | none => .ok v.print

end TreeLint.Json.Value
