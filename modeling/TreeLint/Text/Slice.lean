/-
  Slices by two offsets.

  A negative offset counts from the end, an offset outside the sequence is moved to the nearest end,
  a missing offset stands for the end on its side, and a slice that ends before it starts is empty.
-/
set_option autoImplicit false

namespace TreeLint.Text

/-- The position in a sequence of the given length that an offset stands for. -/
def clampOffset (length : Nat) (offset : Int) : Nat :=
  if offset < 0 then (offset + length).toNat else min offset.toNat length

/-- The elements from the first offset up to, and without, the second. -/
def slice {α : Type} (xs : List α) (start stop : Option Int) : List α :=
  let first := (start.map (clampOffset xs.length)).getD 0
  let last := (stop.map (clampOffset xs.length)).getD xs.length
  (xs.drop first).take (last - first)

/-- An offset that is not negative is cut at the length. -/
@[simp] theorem clampOffset_natCast (length n : Nat) :
    clampOffset length (n : Int) = min n length := by
  unfold clampOffset
  rw [if_neg (by omega), Int.toNat_natCast]

/-- Two offsets inside the sequence cut out exactly the elements between them. -/
theorem slice_of_le {α : Type} (xs : List α) {first last : Nat}
    (hfirst : first ≤ xs.length) (hlast : last ≤ xs.length) :
    slice xs (some first) (some last) = (xs.drop first).take (last - first) := by
  simp [slice, Nat.min_eq_left hfirst, Nat.min_eq_left hlast]

end TreeLint.Text
