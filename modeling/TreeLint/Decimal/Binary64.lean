/-
  The exact value of a floating-point number.

  A finite number is a whole number of at most 53 bits times a power of two, with a sign.  All
  decimal text and all comparisons with whole numbers go through this form.
-/
set_option autoImplicit false

namespace TreeLint.Decimal

/-- What a floating-point number stands for. -/
inductive Binary64 where
  /-- No number. -/
  | nan
  /-- Beyond every number. -/
  | infinite (negative : Bool)
  /-- The mantissa times two to the exponent. -/
  | finite (negative : Bool) (mantissa : Nat) (exponent : Int)
deriving DecidableEq, Repr

namespace Binary64

/-- The parts of a number, read off its bits. -/
def ofFloat (x : Float) : Binary64 :=
  let bits : Nat := x.toBits.toNat
  let negative := bits / Nat.pow 2 63 == 1
  let exponent : Nat := bits / Nat.pow 2 52 % Nat.pow 2 11
  let fraction : Nat := bits % Nat.pow 2 52
  if exponent = 2047 then
    if fraction = 0 then .infinite negative else .nan
  else if exponent = 0 then .finite negative fraction (-1074)
  else .finite negative (Nat.pow 2 52 + fraction) ((exponent : Int) - 1075)

/-- The numerator over a power of two of a finite number without its sign. -/
def fraction (mantissa : Nat) (exponent : Int) : Nat × Nat :=
  if exponent < 0 then (mantissa, Nat.pow 2 exponent.natAbs)
  else (mantissa * Nat.pow 2 exponent.natAbs, 1)

/-- How a whole number lies to a floating-point number; nothing lies to no number. -/
def compareInt (n : Int) : Binary64 → Option Ordering
  | .nan => none
  | .infinite negative => some (if negative then .gt else .lt)
  | .finite negative mantissa exponent =>
    let (top, bottom) := fraction mantissa exponent
    let signed : Int := if negative then -(top : Int) else top
    some (compare (n * bottom) signed)

end Binary64

/-- The nearest floating-point number to a whole number, unless it is too large for any. -/
def floatOfInt? (n : Int) : Option Float :=
  let x := Float.ofScientific n.natAbs false 0
  if x.isInf then none else some (if n < 0 then -x else x)

end TreeLint.Decimal
