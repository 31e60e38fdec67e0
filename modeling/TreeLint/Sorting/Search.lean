/-
  Searching a row for the place of an item.

  Comparing two items can fail, and the answers need not agree with each other: a value that is no
  number comes neither before nor after any number.  What a sort makes of such items depends on which
  of them it compares.  So the searches here, and all that is built on them, compare in a fixed order.
-/
set_option autoImplicit false

namespace TreeLint.Sorting

variable {α ε : Type}

/-- Whether an item comes before another one.  Asking can fail. -/
abbrev Before (α ε : Type) := α → α → Except ε Bool

/-- The answer turned around. -/
def negated (answer : Except ε Bool) : Except ε Bool :=
  answer.map (!·)

/-- A test of the item at a place of a row.  No item stands outside the row. -/
def testAt (row : List α) (test : α → Except ε Bool) (place : Nat) : Except ε Bool :=
  match row[place]? with
  | some item => test item
  | none => .ok false

/-- Looks for a place between `low` and `high` by halves.  The test says of a place whether the one
that is looked for lies behind it. -/
def halve (behind : Nat → Except ε Bool) (low high : Nat) : Except ε Nat :=
  if low < high then
    match behind (low + (high - low) / 2) with
    | .error fault => .error fault
    | .ok true => halve behind (low + (high - low) / 2 + 1) high
    | .ok false => halve behind low (low + (high - low) / 2)
  else .ok low
termination_by high - low
decreasing_by all_goals omega

/-- Goes from `next` on in strides that double, as long as the test allows and the limit is not
reached.  Gives the last distance that passed and the one that ended the walk. -/
def stride (goesOn : Nat → Except ε Bool) (limit last next : Nat) : Except ε (Nat × Nat) :=
  if next < limit then
    match goesOn next with
    | .error fault => .error fault
    | .ok true => stride goesOn limit next (2 * next + 1)
    | .ok false => .ok (last, next)
  else .ok (last, limit)
termination_by limit - next
decreasing_by omega

/-- Looks for a place in a row of the given size, first in strides away from a place that is probably
near, then by halves. -/
def gallop (behind : Nat → Except ε Bool) (size hint : Nat) : Except ε Nat := do
  if ← behind hint then
    let (last, next) ← stride (fun distance => behind (hint + distance)) (size - hint) 0 1
    halve behind (hint + last + 1) (hint + next)
  else
    let (last, next) ← stride (fun distance => negated (behind (hint - distance))) (hint + 1) 0 1
    halve behind (hint + 1 - next) (hint - last)

/-- A sorted row with an item put behind all that it does not come before. -/
def insert (before : Before α ε) (row : List α) (item : α) : Except ε (List α) := do
  let place ← halve (testAt row fun other => negated (before item other)) 0 row.length
  return row.take place ++ item :: row.drop place

end TreeLint.Sorting
