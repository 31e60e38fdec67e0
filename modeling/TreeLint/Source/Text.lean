/-
  The text under analysis, and where a node stands in it.

  Offsets count code points.  The text may be missing, and then nodes have neither a text nor a
  line, unless they carry a line of their own.
-/
import TreeLint.Syntax.Span
import TreeLint.Text.Slice

set_option autoImplicit false

namespace TreeLint

/-- The text under analysis, absent when it is not known. -/
structure Source where
  /-- The text. -/
  text : Json.Value

namespace Source

open TreeLint.Json TreeLint.Syntax

/-- A line, counted from one, and a column, counted from zero; both absent when not known. -/
structure Location where
  /-- The line. -/
  line : Value
  /-- The column. -/
  column : Value

/-- The place that is not known. -/
def Location.unknown : Location :=
  ⟨.null, .null⟩

/-! ## Lines -/

/-- The offsets at which lines start: zero, and after each end of a line. -/
def lineStarts (isEnd : List Bool) : List Nat :=
  0 :: (isEnd.zipIdx.filterMap fun (e, i) => if e then some (i + 1) else none)

/-- Which characters of a text end a line.  A list is read as the list of its characters, and an
object as the list of the names of its fields. -/
def lineEnds : Value → Except Fault (List Bool)
  | .str s => .ok (s.toList.map (· == '\n'))
  | .arr items => .ok (items.map fun item => item.isText "\n")
  | .obj fields => .ok (fields.map fun field => field.1 == "\n")
  | _ => .error .unsuited

/-- The line starts of a text; one that counts as empty has a single line. -/
def startsOf (text : Value) : Except Fault (List Nat) := do
  if text.truthy then return lineStarts (← lineEnds text) else return lineStarts []

/-- The number of line starts that a place does not come before. -/
def linesBefore (starts : List Nat) (offset : Number) : Nat :=
  (starts.filter fun start : Nat => !offset.precedes false (.whole start)).length

/-- The start of the line with the given number; the last line stands in for line zero. -/
def lineStart (starts : List Nat) (line : Nat) : Nat :=
  if line = 0 then starts.getLastD 0 else starts.getD (line - 1) 0

/-- A number less a whole number. -/
def distance (offset : Number) (start : Nat) : Value :=
  match offset with
  | .whole n => .int (n - start)
  | .floating x => .float (x - Float.ofNat start)

/-- Line and column of an offset. -/
def locate (starts : List Nat) (offset : Number) : Location :=
  let line := linesBefore starts offset
  ⟨.int line, distance offset (lineStart starts line)⟩

/-- An end of a slice: a whole number, or absent for the end of the text. -/
def sliceBound (v : Value) : Except Fault (Option Int) :=
  if v.isNull then .ok none
  else
    match v.whole? with
    | some n => .ok (some n)
    | none => .error .unsuited

/-! ## Nodes -/

/-- The text between the ends of a span. -/
def between (source : Source) (s : Span) : Except Fault Value := do
  let start ← sliceBound s.start
  let stop ← sliceBound s.stop
  match source.text with
  | .str text => return .str (String.ofList (Text.slice text.toList start stop))
  | .arr items => return .arr (Text.slice items start stop)
  | _ => .error .unsuited

/-- The text of a node; absent when the text is not known or the node has no span. -/
def textOf (source : Source) (node : Value) : Except Fault Value := do
  match ← span node with
  | none => return .null
  | some s => if source.text.isNull then return .null else source.between s

/-- Where a span starts. -/
def locationOfSpan (source : Source) (s : Span) : Except Fault Location := do
  let starts ← startsOf source.text
  match s.start.number? with
  | some offset => return locate starts offset
  | none => .error .unsuited

/-- The place that a node carries itself. -/
def ownLocation? (node : Value) : Except Fault (Option Location) := do
  match ← node.get "loc" with
  | .obj loc =>
    match Fields.get loc "start" with
    | .obj start => return some ⟨Fields.get start "line", Fields.get start "column"⟩
    | _ => return none
  | _ => return none

/-- Where a node starts: at the place that it carries, else where its span starts. -/
def locationOf (source : Source) (node : Value) : Except Fault Location := do
  match ← ownLocation? node with
  | some location => return location
  | none =>
    match ← span node with
    | none => return .unknown
    | some s => if source.text.isNull then return .unknown else source.locationOfSpan s

/-! ## Kept line starts -/

/-- Steps that may fail, and that may keep the line starts of a text for later steps.  What is kept stays
when a step fails. -/
abbrev Keeping := ExceptT Fault (StateM (Option (List Nat)))

/-- The line starts of the text.  They are worked out when they are first asked for, and kept. -/
def keptStarts (source : Source) : Keeping (List Nat) := do
  match ← get with
  | some starts => return starts
  | none =>
    let starts ← startsOf source.text
    set (some starts)
    return starts

/-- Where a node starts, with the line starts kept. -/
def keptLocationOf (source : Source) (node : Value) : Keeping Location := do
  match ← ownLocation? node with
  | some location => return location
  | none =>
    match ← span node with
    | none => return .unknown
    | some s =>
      if source.text.isNull then return .unknown
      else
        let starts ← source.keptStarts
        match s.start.number? with
        | some offset => return locate starts offset
        | none => throw .unsuited

end Source

end TreeLint
