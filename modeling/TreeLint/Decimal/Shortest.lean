/-
  The shortest decimal text of a floating-point number.

  Of the decimals that read back as the number, those with the fewest digits are taken, and of these
  the nearest one.  The search goes through one, two, … digits and looks at the two neighbours of
  the exact value on each grid.
-/
import TreeLint.Decimal.Binary64

set_option autoImplicit false

namespace TreeLint.Decimal

/-- A decimal: the digits, as a whole number, times ten to the exponent. -/
structure Digits where
  /-- The digits as a number. -/
  value : Nat
  /-- The power of ten of the last digit. -/
  exponent : Int
deriving DecidableEq, Repr

/-- The power of ten at the highest digit of the positive fraction `top / bottom`. -/
def magnitude (top bottom : Nat) : Int :=
  if bottom ≤ top then ((toString (top / bottom)).length : Int) - 1
  else
    let length := (toString (bottom / top)).length
    if top * Nat.pow 10 (length - 1) = bottom then -((length : Int) - 1) else -(length : Int)

/-- The numbers around a value that read back as it: the value and the two ends of the interval, all
over one denominator, and whether the ends belong to it. -/
structure Neighbourhood where
  low : Nat
  value : Nat
  high : Nat
  bottom : Nat
  closed : Bool

/-- The interval of the reals that are nearest to a finite number that is not zero. -/
def neighbourhood (mantissa : Nat) (exponent : Int) : Neighbourhood :=
  let scale := fun n => Binary64.fraction n (exponent - 2)
  let low := if mantissa = Nat.pow 2 52 ∧ -1074 < exponent then 4 * mantissa - 1 else 4 * mantissa - 2
  { low := (scale low).1
    value := (scale (4 * mantissa)).1
    high := (scale (4 * mantissa + 2)).1
    bottom := (scale 1).2
    closed := mantissa % 2 == 0 }

/-- The decimal lies in the interval. -/
def Neighbourhood.holds (n : Neighbourhood) (d : Digits) : Bool :=
  let left := d.value * Nat.pow 10 d.exponent.toNat * n.bottom
  let factor := Nat.pow 10 (-d.exponent).toNat
  if n.closed then n.low * factor ≤ left && left ≤ n.high * factor
  else n.low * factor < left && left < n.high * factor

/-- The better of the two neighbours of the value that have their last digit at a power of ten. -/
def Neighbourhood.at? (n : Neighbourhood) (exponent : Int) : Option Digits :=
  let top := n.value * Nat.pow 10 (-exponent).toNat
  let bottom := n.bottom * Nat.pow 10 exponent.toNat
  let down : Digits := ⟨top / bottom, exponent⟩
  let up : Digits := ⟨top / bottom + 1, exponent⟩
  match n.holds down, n.holds up with
  | true, true =>
    let rest := 2 * (top % bottom)
    if rest < bottom ∨ (rest = bottom ∧ down.value % 2 = 0) then some down else some up
  | true, false => some down
  | false, true => some up
  | false, false => none

/-- The first hit on the grids with the last digit at `exponent`, one below it, and so on. -/
def Neighbourhood.search (n : Neighbourhood) : Nat → Int → Option Digits
  | 0, _ => none
  | fuel + 1, exponent =>
    match n.at? exponent with
    | some d => some d
    | none => n.search fuel (exponent - 1)

/-- A decimal without zeros at its end. -/
def Digits.trimZeros : Nat → Digits → Digits
  | 0, d => d
  | fuel + 1, d =>
    if d.value ≠ 0 ∧ d.value % 10 = 0 then
      Digits.trimZeros fuel ⟨d.value / 10, d.exponent + 1⟩
    else d

/-- The shortest decimal that reads back as a finite number; seventeen digits are always enough. -/
def shortest (mantissa : Nat) (exponent : Int) : Digits :=
  if mantissa = 0 then ⟨0, 0⟩
  else
    let n := neighbourhood mantissa exponent
    let first := magnitude n.value n.bottom
    let found := (n.search 18 first).getD ⟨n.value / n.bottom, 0⟩
    found.trimZeros (toString found.value).length

/-- The choices of a written form of floating-point numbers. -/
structure Style where
  /-- Powers of ten of the first digit from here on are written out. -/
  leastPlain : Int
  /-- Powers of ten of the first digit from here on take an exponent. -/
  leastScientific : Int
  /-- The text of no number. -/
  nan : String
  /-- The text of the number beyond all others. -/
  infinity : String

/-- The digits with a point: after the whole part if there is one, and with a zero on either side
that would be empty. -/
def plainText (digits : String) (exponent : Int) : String :=
  if 0 ≤ exponent then digits ++ String.ofList (List.replicate exponent.toNat '0') ++ ".0"
  else
    let places := (-exponent).toNat
    let padded := List.replicate (places + 1 - digits.length) '0' ++ digits.toList
    let whole := padded.length - places
    String.ofList (padded.take whole) ++ "." ++ String.ofList (padded.drop whole)

/-- The digits with one before the point, and the power of ten with a sign and two digits at
least. -/
def scientificText (digits : String) (power : Int) : String :=
  let point := if digits.length = 1 then "" else "."
  let size := toString power.natAbs
  let padding := if size.length = 1 then "0" else ""
  String.ofList (digits.toList.take 1) ++ point ++ String.ofList (digits.toList.drop 1) ++ "e" ++
    (if power < 0 then "-" else "+") ++ padding ++ size

/-- The written form of a floating-point number. -/
def Style.write (style : Style) (x : Float) : String :=
  match Binary64.ofFloat x with
  | .nan => style.nan
  | .infinite negative => (if negative then "-" else "") ++ style.infinity
  | .finite negative mantissa exponent =>
    let d := shortest mantissa exponent
    let digits := toString d.value
    let power := d.exponent + digits.length - 1
    (if negative then "-" else "") ++
      if style.leastPlain ≤ power ∧ power < style.leastScientific then
        plainText digits d.exponent
      else scientificText digits power

end TreeLint.Decimal
