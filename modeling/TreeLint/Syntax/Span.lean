/-
  The part of the source that a node comes from.

  A node gives it by two whole numbers, `start` and `end`, or by a list of two, `range`.  The ends
  are kept as they are found.
-/
import TreeLint.Json.Access
import TreeLint.Sorting.Runs

set_option autoImplicit false

namespace TreeLint.Syntax

open TreeLint.Json

/-- Two offsets into the source. -/
structure Span where
  /-- The offset of the first character. -/
  start : Value
  /-- The offset after the last character. -/
  stop : Value

/-- The span that the fields of a node give. -/
def spanOf (fields : Fields) : Option Span :=
  let start := Fields.get fields "start"
  let stop := Fields.get fields "end"
  if start.whole?.isSome && stop.whole?.isSome then some ⟨start, stop⟩
  else
    match Fields.get fields "range" with
    | .arr [first, last] => some ⟨first, last⟩
    | _ => none

/-- The span of a node; an absent node has none. -/
def span : Value → Except Fault (Option Span)
  | .null => .ok none
  | .obj fields => .ok (spanOf fields)
  | _ => .error .notObject

namespace Span

/-- The two spans have ends that are alike. -/
def alike (a b : Span) : Bool :=
  a.start.alike b.start && a.stop.alike b.stop

/-- The first span comes before the second: by its start, then by its end. -/
def precedes (a b : Span) : Except Fault Bool :=
  Value.precedesItems false [a.start, a.stop] [b.start, b.stop]

/-- The span lies inside the other one. -/
def inside (inner outer : Span) : Except Fault Bool := do
  if ← Value.precedes true outer.start inner.start then
    Value.precedes true inner.stop outer.stop
  else return false

/-- Both ends may be part of the key of a table. -/
def isKey (s : Span) : Bool :=
  s.start.isKey && s.stop.isKey

/-! ## Order -/

/-- The two ends, where both are whole numbers. -/
def wholeEnds? (s : Span) : Option (Int × Int) :=
  match s.start.whole?, s.stop.whole? with
  | some start, some stop => some (start, stop)
  | _, _ => none

/-- A span of whole numbers does not come after another one. -/
def notAfter (a b : Span) : Bool :=
  match a.wholeEnds?, b.wholeEnds? with
  | some (start, stop), some (otherStart, otherStop) =>
    decide (start < otherStart ∨ (start = otherStart ∧ stop ≤ otherStop))
  | _, _ => false

/-- The spans in order.  Spans of whole numbers are in a total order, in which every stable sort gives
the same row.  Other spans need not be comparable, and an end that is no number comes neither before
nor after any other one, so that the order of comparisons shows in the result. -/
def sort (spans : List Span) : Except Fault (List Span) :=
  if spans.all fun s => s.wholeEnds?.isSome then .ok (spans.mergeSort notAfter)
  else Sorting.sort precedes spans

end Span

end TreeLint.Syntax
