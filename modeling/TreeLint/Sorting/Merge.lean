/-
  Merging two sorted rows that stand next to each other.

  The items that are in place already stay there.  Of what is left, the shorter row is set aside, and
  the rows are merged into one: from the start if the left row is the shorter one, else from the end.
  Items are taken one by one until one row wins several times in a row; then whole stretches are taken
  at once, as long as they are long enough to pay.  How many wins it takes is learnt from one merge to
  the next.
-/
import TreeLint.Sorting.Search

set_option autoImplicit false

namespace TreeLint.Sorting

variable {α ε : Type}

/-- The length from which on a stretch pays, and the number of wins at the beginning. -/
def payingLength : Nat := 7

/-- A merge under way.  Both rows are listed in the order in which their items are taken. -/
structure Merge (α : Type) where
  /-- What was taken, last first. -/
  taken : List α
  /-- What is left of the row that was set aside. -/
  aside : List α
  /-- What is left of the other row. -/
  rest : List α

namespace Merge

/-- The merge after the next items of the row set aside were taken. -/
def takeAside (merge : Merge α) (count : Nat) : Merge α :=
  ⟨(merge.aside.take count).reverse ++ merge.taken, merge.aside.drop count, merge.rest⟩

/-- The merge after the next items of the other row were taken. -/
def takeRest (merge : Merge α) (count : Nat) : Merge α :=
  ⟨(merge.rest.take count).reverse ++ merge.taken, merge.aside, merge.rest.drop count⟩

/-- The merged row, once nothing is left to compare.  The last item of the row set aside is known to
come at the end. -/
def row? (merge : Merge α) : Option (List α) :=
  match merge.aside, merge.rest with
  | aside, [] => some (merge.taken.reverse ++ aside)
  | [], rest => some (merge.taken.reverse ++ rest)
  | [last], rest => some (merge.taken.reverse ++ rest ++ [last])
  | _, _ => none

/-- Everything in the merge, as it stands. -/
def items (merge : Merge α) : List α :=
  merge.taken.reverse ++ merge.aside ++ merge.rest

end Merge

/-- How a merge goes on. -/
inductive Pace where
  /-- One by one; the last winner, and how often it has won in a row. -/
  | single (restWon : Bool) (wins : Nat)
  /-- By whole stretches. -/
  | stretches

/-- How the items are compared and in which direction. -/
structure Direction (α ε : Type) where
  /-- Whether an item is taken before another one. -/
  before : Before α ε
  /-- Whether the rows are taken from their ends. -/
  fromEnd : Bool

namespace Direction

/-- The number of items at the start of a row that pass a test, as a gallop finds it.  Places are
counted from the left, also where the rows are taken from the end. -/
def reach (direction : Direction α ε) (row : List α) (passes : α → Except ε Bool) :
    Except ε Nat := do
  if direction.fromEnd then
    let place ← gallop (testAt row.reverse fun item => negated (passes item)) row.length
      (row.length - 1)
    return row.length - place
  else gallop (testAt row passes) row.length 0

/-- Takes from the row set aside all that the next item of the other row does not come before, and
then that item. -/
def stretchAside (direction : Direction α ε) (merge : Merge α) : Except ε (Merge α × Nat) := do
  match merge.rest with
  | [] => return (merge, 0)
  | next :: _ =>
    let count ← direction.reach merge.aside fun item => negated (direction.before next item)
    let merge := merge.takeAside count
    return (if merge.row?.isSome then merge else merge.takeRest 1, count)

/-- Takes from the other row all that comes before the next item of the row set aside, and then that
item. -/
def stretchRest (direction : Direction α ε) (merge : Merge α) : Except ε (Merge α × Nat) := do
  match merge.aside with
  | [] => return (merge, 0)
  | next :: _ =>
    let count ← direction.reach merge.rest fun item => direction.before item next
    let merge := merge.takeRest count
    return (if merge.row?.isSome then merge else merge.takeAside 1, count)

/-- A stretch of the left row, which is the one set aside unless the rows are taken from their
ends. -/
def leftStretch (direction : Direction α ε) (merge : Merge α) : Except ε (Merge α × Nat) :=
  if direction.fromEnd then direction.stretchRest merge else direction.stretchAside merge

/-- A stretch of the right row. -/
def rightStretch (direction : Direction α ε) (merge : Merge α) : Except ε (Merge α × Nat) :=
  if direction.fromEnd then direction.stretchAside merge else direction.stretchRest merge

/-- The next round of a merge: the merge after it, the pace, and the number of wins that it takes from
now on to go by stretches. -/
def round (direction : Direction α ε) (wanted : Nat) (pace : Pace) (merge : Merge α) :
    Except ε (Merge α × Pace × Nat) := do
  match pace with
  | .single restWon wins =>
    match merge.aside, merge.rest with
    | item :: _, other :: _ =>
      let restWins ← direction.before other item
      let merge := if restWins then merge.takeRest 1 else merge.takeAside 1
      let wins := if restWins = restWon then wins + 1 else 1
      return (merge, if wanted ≤ wins then .stretches else .single restWins wins, wanted)
    | _, _ => return (merge, pace, wanted)
  | .stretches =>
    let (merge, ofLeft) ← direction.leftStretch merge
    if merge.row?.isSome then return (merge, .stretches, wanted)
    else
      let (merge, ofRight) ← direction.rightStretch merge
      if merge.row?.isSome then return (merge, .stretches, wanted)
      else if payingLength ≤ ofLeft ∨ payingLength ≤ ofRight then
        return (merge, .stretches, max 1 (wanted - 1))
      else return (merge, .single false 0, wanted + 1)

/-- Goes on with a merge to its end.  Every round takes an item, so there are no more rounds than
items. -/
def finish (direction : Direction α ε) :
    Nat → Nat → Pace → Merge α → Except ε (List α × Nat)
  | 0, wanted, _, merge => .ok (merge.row?.getD merge.items, wanted)
  | rounds + 1, wanted, pace, merge => do
    match merge.row? with
    | some row => return (row, wanted)
    | none =>
      let (merge, pace, wanted) ← direction.round wanted pace merge
      finish direction rounds wanted pace merge

/-- Merges two rows, given in the order in which they are taken.  The first item of the row that is not
set aside is known to come first. -/
def merge (direction : Direction α ε) (wanted : Nat) (aside rest : List α) :
    Except ε (List α × Nat) :=
  direction.finish (aside.length + rest.length) wanted (.single false 0)
    (Merge.takeRest ⟨[], aside, rest⟩ 1)

end Direction

/-- Merges two rows of which neither is empty, once the items that are in place were taken away. -/
def mergeInner (before : Before α ε) (wanted : Nat) (left right : List α) :
    Except ε (List α × Nat) := do
  if left.length ≤ right.length then
    Direction.merge ⟨before, false⟩ wanted left right
  else
    let flipped : Direction α ε := ⟨fun item other => before other item, true⟩
    let (row, wanted) ← flipped.merge wanted right.reverse left.reverse
    return (row.reverse, wanted)

/-- Merges two sorted neighbours. -/
def mergeRows (before : Before α ε) (wanted : Nat) (left right : List α) :
    Except ε (List α × Nat) := do
  match right.head? with
  | none => return (left, wanted)
  | some first =>
    let settled ← gallop (testAt left fun item => negated (before first item)) left.length 0
    let inner := left.drop settled
    match inner.getLast? with
    | none => return (left ++ right, wanted)
    | some last =>
      let reached ← gallop (testAt right fun item => before item last) right.length
        (right.length - 1)
      let (middle, wanted) ←
        if reached = 0 then pure (inner, wanted)
        else mergeInner before wanted inner (right.take reached)
      return (left.take settled ++ middle ++ right.drop reached, wanted)

end TreeLint.Sorting
