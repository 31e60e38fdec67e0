/-
  Times in milliseconds.

  A time is never negative and is rounded to three places by its exact value.
-/
import TreeLint.Decimal.Fixed
import TreeLint.Decimal.Reader
import TreeLint.Json.Order

set_option autoImplicit false

namespace TreeLint.Command

open TreeLint.Json

/-- The places that a time is rounded to. -/
def timePlaces : Nat := 3

/-- The floating-point number that a value stands for; a text has to be the text of a number. -/
def toFloat (v : Value) : Except Fault Float :=
  match v with
  | .str s =>
    match Decimal.readFloat? s with
    | some x => .ok x
    | none => .error .notNumber
  | v =>
    match v.number? with
    | some (.floating x) => .ok x
    | some (.whole n) =>
      match Decimal.floatOfInt? n with
      | some x => .ok x
      | none => .error .tooLarge
    | none => .error .unsuited

/-- Two values together: the sum of numbers, the texts or lists one after the other. -/
def sum (a b : Value) : Except Fault Value :=
  match a, b with
  | .str s, .str t => .ok (.str (s ++ t))
  | .arr xs, .arr ys => .ok (.arr (xs ++ ys))
  | a, b =>
    match a.number?, b.number? with
    | some (.whole m), some (.whole n) => .ok (.int (m + n))
    | some _, some _ => do return .float ((← toFloat a) + (← toFloat b))
    | _, _ => .error .unsuited

/-- A time that is not negative, before it is rounded. -/
def duration (v : Value) : Except Fault Float := do
  let x ← toFloat v
  return if 0 < x then x else 0

/-- How long a file took. -/
structure Timing where
  /-- The time to load it. -/
  load : Float
  /-- The time to analyse it. -/
  analysis : Float
  /-- The two together. -/
  total : Float

/-- The times of a file, not yet rounded. -/
def Timing.of (load analysis : Value) : Except Fault Timing := do
  return ⟨← duration load, ← duration analysis, ← duration (← sum load analysis)⟩

/-- A time as a number of a document. -/
def timeValue (x : Float) : Value :=
  .float (Decimal.roundTo timePlaces x)

/-- The times of a file in a document. -/
def Timing.toValue (timing : Timing) : Value :=
  .obj [("load", timeValue timing.load), ("analysis", timeValue timing.analysis),
    ("total", timeValue timing.total)]

end TreeLint.Command
