/-
  Sorting by runs.

  A row is cut into runs that rise or fall already.  Falling runs are turned around, and short ones
  are made longer by putting the next items into their places.  Each run is kept until a later one
  shows that it is time to merge it with its neighbour: the power of the boundary between two runs
  says how deep it lies in a balanced tree over the whole row, and deeper boundaries are merged first.
-/
import TreeLint.Sorting.Merge

set_option autoImplicit false

namespace TreeLint.Sorting

variable {α ε : Type}

/-! ## Runs -/

/-- The number of items that go on falling, or go on not falling, after the given one. -/
def goingOn (before : Before α ε) (falling : Bool) (previous : α) : List α → Except ε Nat
  | [] => .ok 0
  | item :: rest => do
    if (← before item previous) = falling then
      return 1 + (← goingOn before falling item rest)
    else return 0

/-- The length of the run at the start of a row, and whether it falls. -/
def runLength (before : Before α ε) (first : α) : List α → Except ε (Nat × Bool)
  | [] => .ok (1, false)
  | second :: rest => do
    let falling ← before second first
    return (2 + (← goingOn before falling second rest), falling)

/-- The least length of a run in a row of the given size.  A row of less than sixty-four items is one
run; of a longer one, the size is halved until it is as short and rounded up, so that the number of
runs is a power of two or a little less. -/
def leastRun (size : Nat) : Nat :=
  let scale := Nat.pow 2 (size.log2 - 5)
  (size + scale - 1) / scale

/-! ## Pending runs -/

/-- A sorted part of the row. -/
structure Run (α : Type) where
  /-- The place of its first item in the row. -/
  start : Nat
  /-- Its items, in order. -/
  items : List α
  /-- The power of the boundary behind it, once the next run is known. -/
  power : Nat

namespace Run

/-- Twice the place of the middle. -/
def middle (run : Run α) : Nat :=
  2 * run.start + run.items.length

/-- A run and its neighbour as one. -/
def join (before : Before α ε) (wanted : Nat) (left right : Run α) : Except ε (Run α × Nat) := do
  let (items, wanted) ← mergeRows before wanted left.items right.items
  return ({ left with items := items }, wanted)

end Run

/-- The depth of the boundary between two runs in a row of the given size: the first binary digit in
which their middles differ, as fractions of the whole. -/
def boundaryPower (size : Nat) (left right : Run α) : Nat :=
  ((List.range (size.log2 + 1)).find? fun digit =>
    Nat.pow 2 digit * left.middle / size ≠ Nat.pow 2 digit * right.middle / size).getD size

/-- Merges the last run with those before it that have a deeper boundary.  Runs are listed from the
last to the first. -/
def joinDeeper (before : Before α ε) (power : Nat) :
    Nat → Run α → List (Run α) → Except ε (Run α × List (Run α) × Nat)
  | wanted, last, [] => .ok (last, [], wanted)
  | wanted, last, previous :: earlier => do
    if power < previous.power then
      let (joined, wanted) ← previous.join before wanted last
      joinDeeper before power wanted joined earlier
    else return (last, previous :: earlier, wanted)

/-- The pending runs with one more. -/
def push (before : Before α ε) (size wanted : Nat) (run : Run α) (pending : List (Run α)) :
    Except ε (List (Run α) × Nat) := do
  match pending with
  | [] => return ([run], wanted)
  | last :: earlier =>
    let power := boundaryPower size last run
    let (last, earlier, wanted) ← joinDeeper before power wanted last earlier
    return (run :: { last with power := power } :: earlier, wanted)

/-- Merges all pending runs, from the last on.  The run before the last is merged with the shorter of
its two neighbours. -/
def joinAll (before : Before α ε) : Nat → Run α → List (Run α) → Except ε (List α)
  | _, last, [] => .ok last.items
  | wanted, last, [previous] => do
    let (joined, _) ← previous.join before wanted last
    return joined.items
  | wanted, last, previous :: third :: earlier => do
    if third.items.length < last.items.length then
      let (joined, wanted) ← third.join before wanted previous
      joinAll before wanted last (joined :: earlier)
    else
      let (joined, wanted) ← previous.join before wanted last
      joinAll before wanted joined (third :: earlier)
termination_by _ _ pending => pending.length
decreasing_by all_goals simp only [List.length_cons]; omega

/-! ## The whole row -/

/-- The run at the start of a row, as long as it has to be. -/
def firstRun (before : Before α ε) (least : Nat) (first : α) (others : List α) :
    Except ε (List α) := do
  let row := first :: others
  let (length, falling) ← runLength before first others
  let run := row.take length
  ((row.take least).drop length).foldlM (insert before) (if falling then run.reverse else run)

/-- Cuts what is left of a row into runs, and merges all runs in the end. -/
def sortFrom (before : Before α ε) (size : Nat) :
    Nat → List (Run α) → List α → Except ε (List α)
  | _, [], [] => .ok []
  | wanted, last :: earlier, [] => joinAll before wanted last earlier
  | wanted, pending, first :: others => do
    let run ← firstRun before (leastRun size) first others
    let (pending, wanted) ← push before size wanted ⟨size - others.length - 1, run, 0⟩ pending
    sortFrom before size wanted pending (others.drop (run.length - 1))
termination_by _ _ row => row.length
decreasing_by simp only [List.length_drop, List.length_cons]; omega

/-- The items in order, equal ones as they stood. -/
def sort (before : Before α ε) (row : List α) : Except ε (List α) :=
  sortFrom before row.length payingLength [] row

end TreeLint.Sorting
