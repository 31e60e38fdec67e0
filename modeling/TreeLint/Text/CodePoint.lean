/-
  Tables of code points.

  A property of characters is given by the code points that have it, as a list of ranges in
  increasing order.  Ranges whose members are every second code point carry a step.
-/
set_option autoImplicit false

namespace TreeLint.Text.CodePoint

/-- The code point lies between the two ends of one of the ranges. -/
def inRanges (ranges : List (Nat × Nat)) (c : Char) : Bool :=
  ranges.any fun (first, last) => first ≤ c.toNat && c.toNat ≤ last

/-- The code point is one of `first, first + step, …, last` for one of the runs. -/
def inRuns (runs : List (Nat × Nat × Nat)) (c : Char) : Bool :=
  runs.any fun (first, last, step) =>
    first ≤ c.toNat && c.toNat ≤ last && (c.toNat - first) % step == 0

end TreeLint.Text.CodePoint
