/-
  Line ends.  A text read from a file has one character for each line end: a carriage return, and a
  carriage return followed by a line feed, are read as a line feed.
-/
set_option autoImplicit false

namespace TreeLint.Text

/-- Every line end as a single line feed. -/
def unifyNewlines : List Char → List Char
  | [] => []
  | '\r' :: '\n' :: rest => '\n' :: unifyNewlines rest
  | c :: rest => (if c = '\r' then '\n' else c) :: unifyNewlines rest

/-- A text without carriage returns is left as it is. -/
theorem unifyNewlines_of_not_mem (cs : List Char) (h : '\r' ∉ cs) : unifyNewlines cs = cs := by
  fun_induction unifyNewlines cs with
  | case1 => rfl
  | case2 rest ih => simp at h
  | case3 c rest _ ih =>
    simp only [List.mem_cons, not_or] at h
    rw [if_neg (fun hc => h.1 hc.symm), ih h.2]

end TreeLint.Text
