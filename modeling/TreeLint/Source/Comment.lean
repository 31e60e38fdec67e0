/-
  Blocks that hold nothing but comments.

  First the comments that have an end are taken out, from `/*` to the next `*/`; then those that run
  to the end of a line.  What remains has to be blank.
-/
import TreeLint.Source.Text
import TreeLint.Text.Blank

set_option autoImplicit false

namespace TreeLint.Source

open TreeLint.Json TreeLint.Syntax

/-- What follows the first `*/`. -/
def afterClose? : List Char → Option (List Char)
  | [] => none
  | '*' :: '/' :: rest => some rest
  | _ :: rest => afterClose? rest

/-- What follows the end of a comment is shorter than what it starts with. -/
theorem length_afterClose?_lt {cs rest : List Char} (h : afterClose? cs = some rest) :
    rest.length < cs.length := by
  fun_induction afterClose? cs with
  | case1 => cases h
  | case2 rest =>
    cases h
    simp only [List.length_cons]
    omega
  | case3 _ rest _ ih =>
    have := ih h
    simp only [List.length_cons]
    omega

/-- The text without the comments that have an end. -/
def dropBlockComments : List Char → List Char
  | [] => []
  | '/' :: '*' :: rest =>
    match _ : afterClose? rest with
    | some after => dropBlockComments after
    | none => '/' :: dropBlockComments ('*' :: rest)
  | c :: rest => c :: dropBlockComments rest
termination_by cs => cs.length
decreasing_by
  · have hlt := length_afterClose?_lt ‹afterClose? rest = some after›
    simp only [List.length_cons]
    omega
  · simp only [List.length_cons]
    omega
  · simp only [List.length_cons]
    omega

/-- The character ends a line. -/
def endsLine (c : Char) : Bool :=
  c == '\n' || c == '\r'

/-- The text without the comments that run to the end of a line. -/
def dropLineComments : List Char → List Char
  | [] => []
  | '/' :: '/' :: rest => dropLineComments (rest.dropWhile fun c => !endsLine c)
  | c :: rest => c :: dropLineComments rest
termination_by cs => cs.length
decreasing_by
  · have hle : (rest.dropWhile fun c => !endsLine c).length ≤ rest.length :=
      (List.dropWhile_sublist _).length_le
    simp only [List.length_cons]
    omega
  · simp only [List.length_cons]
    omega

/-- The characters are blanks and comments only. -/
def onlyComments (cs : List Char) : Bool :=
  let inner := Text.trim cs
  inner.isEmpty || (Text.trim (dropLineComments (dropBlockComments inner))).isEmpty

/-- A block holds only comments between its braces.  Where its text is not known, it has to have no
statements. -/
def blockHasOnlyComments (source : Option Source) (block : Value) : Except Fault Bool := do
  let text ← match source with
    | some source => source.textOf block
    | none => pure .null
  match text with
  | .null => return !(← block.get "body").truthy
  | .str s => return onlyComments (Text.slice s.toList (some 1) (some (-1)))
  | _ => .error .notObject

end TreeLint.Source
