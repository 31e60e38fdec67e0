/-
  Numbers read from decimal text.

  Two grammars share the digits and the rounding: the numbers of a document, and the wider form that
  a number in a text of its own may have, with blanks around it, digits of any script, single
  underscores between digits, and names for the values that have no digits.
-/
import TreeLint.Text.Blank
import TreeLint.Text.Digit

set_option autoImplicit false

namespace TreeLint.Decimal

/-- The number that a row of digit values stands for. -/
def ofDigits (digits : List Nat) : Nat :=
  digits.foldl (fun n d => 10 * n + d) 0

/-- The floating-point number nearest to `value · 10 ^ exponent`.  Powers far outside the range are
settled before any power of ten is built. -/
def toFloat (negative : Bool) (value : Nat) (exponent : Int) : Float :=
  let size : Float :=
    let power := exponent + (toString value).length
    if value = 0 ∨ power < -400 then 0
    else if 400 < power then 1 / 0
    else Float.ofScientific value (exponent < 0) exponent.natAbs
  if negative then -size else size

/-- The character is a decimal digit of some script. -/
def isDigit (c : Char) : Bool :=
  (Text.digitValue? c).isSome

/-- The text without the underscores that have a digit on both sides. -/
def joinDigits (afterDigit : Bool) : List Char → List Char
  | [] => []
  | c :: rest =>
    if c = '_' && afterDigit && (rest.head?.map isDigit).getD false then joinDigits false rest
    else c :: joinDigits (isDigit c) rest

/-- The digits at the start of a text, and what follows them. -/
def digitRun (cs : List Char) : List Nat × List Char :=
  ((cs.takeWhile isDigit).filterMap Text.digitValue?, cs.dropWhile isDigit)

/-- The sign at the start of a text. -/
def signOf : List Char → Bool × List Char
  | '-' :: rest => (true, rest)
  | '+' :: rest => (false, rest)
  | rest => (false, rest)

/-- The character may stand around a number: it is blank and no information separator. -/
def isMargin (c : Char) : Bool :=
  Text.isBlank c && !Text.isSeparator c

/-- The number that a whole text stands for, if it stands for one. -/
def readFloat? (text : String) : Option Float :=
  let (negative, unsigned) := signOf (joinDigits false (Text.trimBy isMargin text.toList))
  let name := unsigned.map Char.toLower
  if name = "nan".toList then some (0 / 0)
  else if name = "inf".toList ∨ name = "infinity".toList then
    some (if negative then -(1 / 0) else 1 / 0)
  else
    let (whole, rest) := digitRun unsigned
    let (places, rest) :=
      match rest with
      | '.' :: rest => digitRun rest
      | rest => ([], rest)
    if whole.isEmpty && places.isEmpty then none
    else
      let value := ofDigits (whole ++ places)
      match rest with
      | [] => some (toFloat negative value (-(places.length : Int)))
      | mark :: rest =>
        if mark = 'e' ∨ mark = 'E' then
          let (below, rest) := signOf rest
          let (power, rest) := digitRun rest
          if power.isEmpty || !rest.isEmpty then none
          else
            let size : Int := ofDigits power
            some (toFloat negative value ((if below then -size else size) - places.length))
        else none

end TreeLint.Decimal
