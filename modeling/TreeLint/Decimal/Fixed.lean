/-
  Decimal text with a fixed number of places.

  The exact value is rounded to the nearest multiple of the last place, a half to the even one.
-/
import TreeLint.Decimal.Binary64

set_option autoImplicit false

namespace TreeLint.Decimal

/-- The whole number nearest to a fraction; a half goes to the even neighbour. -/
def roundHalfEven (top bottom : Nat) : Nat :=
  let quotient := top / bottom
  let rest := 2 * (top % bottom)
  if rest < bottom ∨ (rest = bottom ∧ quotient % 2 = 0) then quotient else quotient + 1

/-- The rounded value of a finite number in units of the last place, without its sign. -/
def units (places mantissa : Nat) (exponent : Int) : Nat :=
  let (top, bottom) := Binary64.fraction mantissa exponent
  roundHalfEven (top * Nat.pow 10 places) bottom

/-- A number of units of the last place, with a point before the places. -/
def pointed (places units : Nat) : String :=
  let digits := (toString units).toList
  let padded := List.replicate (places + 1 - digits.length) '0' ++ digits
  let whole := padded.length - places
  String.ofList (padded.take whole) ++ "." ++ String.ofList (padded.drop whole)

/-- The text of a number with the given number of places. -/
def fixed (places : Nat) (x : Float) : String :=
  match Binary64.ofFloat x with
  | .nan => "nan"
  | .infinite negative => if negative then "-inf" else "inf"
  | .finite negative mantissa exponent =>
    (if negative then "-" else "") ++ pointed places (units places mantissa exponent)

/-- The floating-point number nearest to a number that was rounded to the given places. -/
def roundTo (places : Nat) (x : Float) : Float :=
  match Binary64.ofFloat x with
  | .finite negative mantissa exponent =>
    if 0 ≤ exponent then x
    else
      let size := Float.ofScientific (units places mantissa exponent) true places
      if negative then -size else size
  | _ => x

end TreeLint.Decimal
