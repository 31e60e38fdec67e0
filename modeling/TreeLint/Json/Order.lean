/-
  When two values count as equal, and which of two values comes first.

  Numbers are compared by their value, whatever they are written as, and a truth value counts as the
  number zero or one.  Texts are compared by code points and lists item by item.  Two objects are
  equal when they have the same fields in any order; no object, and no absent value, comes before
  another.

  The floating-point value that is no number is not equal to itself.  Yet inside a list or an object,
  and as a key, it counts as one and the same: two values are alike when they are equal or both no
  number.
-/
import TreeLint.Fault
import TreeLint.Decimal.Binary64
import TreeLint.Json.Value

set_option autoImplicit false

namespace TreeLint.Json

/-- A number: whole, or floating. -/
inductive Number where
  /-- A whole number. -/
  | whole (n : Int)
  /-- A floating-point number. -/
  | floating (x : Float)

namespace Number

/-- How two numbers lie to each other; a value that is no number lies to nothing. -/
def compare? : Number → Number → Option Ordering
  | .whole a, .whole b => some (compare a b)
  | .whole a, .floating y => Decimal.Binary64.compareInt a (.ofFloat y)
  | .floating x, .whole b => (Decimal.Binary64.compareInt b (.ofFloat x)).map Ordering.swap
  | .floating x, .floating y =>
    if x < y then some .lt else if x == y then some .eq else if y < x then some .gt else none

/-- The first number is the smaller one, or the two are equal and that is enough. -/
def precedes (orEqual : Bool) (a b : Number) : Bool :=
  match compare? a b with
  | some .lt => true
  | some .eq => orEqual
  | _ => false

end Number

namespace Value

/-- The number that a value counts as. -/
def number? : Value → Option Number
  | .bool b => some (.whole (if b then 1 else 0))
  | .int n => some (.whole n)
  | .float x => some (.floating x)
  | _ => none

/-- The whole number that a value counts as. -/
def whole? : Value → Option Int
  | .bool b => some (if b then 1 else 0)
  | .int n => some n
  | _ => none

/-- The two values are numbers of the same value. -/
def sameNumber (a b : Value) : Bool :=
  match a.number?, b.number? with
  | some x, some y => x.compare? y == some .eq
  | _, _ => false

/-- The value is the floating-point value that is no number. -/
def isNaN : Value → Bool
  | .float x => x.isNaN
  | _ => false

mutual

/-- The two values count as equal. -/
def same : Value → Value → Bool
  | .null, .null => true
  | .str a, .str b => a == b
  | .arr xs, .arr ys => sameItems xs ys
  | .obj xs, .obj ys => xs.length == ys.length && sameFields xs ys
  | .link p, .link q => p == q
  | a, b => sameNumber a b

/-- The two lists have items that are alike in the same places. -/
def sameItems : List Value → List Value → Bool
  | [], [] => true
  | x :: xs, y :: ys => (same x y || (x.isNaN && y.isNaN)) && sameItems xs ys
  | _, _ => false

/-- Every one of the fields has a counterpart among the others that is alike. -/
def sameFields : List (String × Value) → List (String × Value) → Bool
  | [], _ => true
  | (key, x) :: xs, ys =>
    (match ys.lookup key with
      | some y => same x y || (x.isNaN && y.isNaN)
      | none => false) && sameFields xs ys

end

/-- The two values are equal, or both no number: as parts of other values, and as keys, they are
one. -/
def alike (a b : Value) : Bool :=
  same a b || (a.isNaN && b.isNaN)

@[simp] theorem same_str (a b : String) : same (.str a) (.str b) = (a == b) := by
  simp [same]

/-- Values that are not both no number are alike when they are equal. -/
theorem alike_of_isNaN_eq_false {a : Value} (b : Value) (h : a.isNaN = false) :
    alike a b = same a b := by
  rw [alike, h, Bool.false_and, Bool.or_false]

@[simp] theorem alike_str (a b : String) : alike (.str a) (.str b) = (a == b) := by
  rw [alike_of_isNaN_eq_false _ rfl, same_str]

mutual

/-- The first value comes before the second, or is equal to it and that is enough. -/
def precedes (orEqual : Bool) : Value → Value → Except Fault Bool
  | .str a, .str b => .ok (if orEqual then decide (a ≤ b) else decide (a < b))
  | .arr xs, .arr ys => precedesItems orEqual xs ys
  | a, b =>
    match a.number?, b.number? with
    | some x, some y => .ok (x.precedes orEqual y)
    | _, _ => .error .unsuited

/-- The first place at which two lists have items that are not alike decides; a list comes after its
beginnings. -/
def precedesItems (orEqual : Bool) : List Value → List Value → Except Fault Bool
  | [], [] => .ok orEqual
  | [], _ :: _ => .ok true
  | _ :: _, [] => .ok false
  | x :: xs, y :: ys => if alike x y then precedesItems orEqual xs ys else precedes orEqual x y

end

end Value

end TreeLint.Json
