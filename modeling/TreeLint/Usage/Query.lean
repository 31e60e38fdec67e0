/-
  Is a binding used outside the given nodes?

  The uses of a name come from a search through the program, or from a table that was made
  beforehand; the question is the same.  Uses and excluded nodes are compared by their spans.  Inner
  scopes are not told apart: any use of the name counts.

  Answers are kept and given again when the same question returns, until they are dropped.
-/
import TreeLint.Json.Table
import TreeLint.Syntax.Span
import TreeLint.Usage.Occurrence

set_option autoImplicit false

namespace TreeLint.Usage

open TreeLint.Json TreeLint.Syntax

/-- Where the uses of a name come from. -/
inductive Strategy where
  /-- Nothing has been chosen. -/
  | undecided
  /-- A search through the program. -/
  | scan (program : Value)
  /-- A table. -/
  | table (bindings : Table)
  /-- Something that was given for a table and is none: no name can be looked up in it. -/
  | noTable (given : Value)

namespace Strategy

/-- The table if there is one, else the program. -/
def choose (program bindings : Value) : Strategy :=
  match bindings with
  | .null => .scan program
  | .obj fields => .table (Table.ofFields fields)
  | given => .noTable given

/-- The span of an entry of a table, if the entry is a use. -/
def entrySpan? (entry : Value) : Option (Except Fault (Option Span)) :=
  match entry with
  | .obj fields =>
    match fields.lookup "kind" with
    | some kind => if kind.isText Role.reference.name then some (.ok (spanOf fields)) else none
    | none => some (.ok (spanOf fields))
  | _ => some (.error .notObject)

/-- The span of an occurrence, if it is a use. -/
def useSpan? (occurrence : Except Fault Occurrence) : Option (Except Fault (Option Span)) :=
  match occurrence with
  | .error fault => some (.error fault)
  | .ok found => if found.role = .reference then some (span found.node) else none

/-- The spans of the uses of a name, up to the first fault. -/
def useSpans (strategy : Strategy) (name : Value) : List (Except Fault (Option Span)) :=
  match strategy with
  | .undecided => [.error (.unimplemented "reference_spans")]
  | .scan program => (occurrences program name).filterMap useSpan?
  | .noTable _ => [.error .notObject]
  | .table bindings =>
    if name.isKey then
      match ((bindings.find? name).getD .null).orEmpty.elements with
      | .ok entries => entries.filterMap entrySpan?
      | .error fault => [.error fault]
    else [.error .unsuited]

end Strategy

/-- Some use lies in none of the excluded spans; a use without a span lies in none. -/
def anyOutside (excluded : List Span) : List (Except Fault (Option Span)) → Except Fault Bool
  | [] => .ok false
  | .error fault :: _ => .error fault
  | .ok none :: _ => .ok true
  | .ok (some use) :: rest => do
    if ← excluded.anyM fun outer => use.inside outer then anyOutside excluded rest
    else return true

/-- The spans of the excluded nodes that have one, in order. -/
def excludedSpans (nodes : List Value) : Except Fault (List Span) := do
  let spans ← nodes.mapM span
  Span.sort (spans.filterMap id)

/-! ## Questions -/

/-- A question: a name, and the spans whose uses do not count. -/
structure Question where
  /-- The name. -/
  name : Value
  /-- The excluded spans, in order. -/
  excluded : List Span

namespace Question

/-- The question about a name and the nodes that do not count.  Its parts have to be fit for keys of
a table. -/
def of (name : Value) (nodes : List Value) : Except Fault Question := do
  let spans ← excludedSpans nodes
  if name.isKey && spans.all Span.isKey then return ⟨name, spans⟩ else .error .unsuited

/-- The two questions are about names and spans that are alike. -/
def alike (a b : Question) : Bool :=
  a.name.alike b.name && a.excluded.length == b.excluded.length &&
    (a.excluded.zip b.excluded).all fun (s, t) => s.alike t

/-- The answer to a question, worked out anew. -/
def answer (strategy : Strategy) (question : Question) : Except Fault Bool :=
  anyOutside question.excluded (strategy.useSpans question.name)

end Question

/-- The name is used outside the given nodes. -/
def usedOutside (strategy : Strategy) (name : Value) (nodes : List Value) : Except Fault Bool := do
  let question ← Question.of name nodes
  question.answer strategy

/-! ## Kept answers -/

/-- A source of uses with the answers that are kept. -/
structure Resolver where
  /-- Where the uses come from. -/
  strategy : Strategy
  /-- The questions answered since answers were last dropped. -/
  memo : List (Question × Bool)

namespace Resolver

/-- A resolver that has answered nothing. -/
def ofStrategy (strategy : Strategy) : Resolver :=
  ⟨strategy, []⟩

/-- The kept answer to a question. -/
def kept? (resolver : Resolver) (question : Question) : Option Bool :=
  (resolver.memo.find? fun (kept, _) => kept.alike question).map (·.2)

/-- Answers a question and keeps the answer.  A question that ends with a fault is not kept. -/
def ask (resolver : Resolver) (name : Value) (nodes : List Value) :
    Except Fault Bool × Resolver :=
  match Question.of name nodes with
  | .error fault => (.error fault, resolver)
  | .ok question =>
    match resolver.kept? question with
    | some answer => (.ok answer, resolver)
    | none =>
      match question.answer resolver.strategy with
      | .error fault => (.error fault, resolver)
      | .ok answer =>
        (.ok answer, { resolver with memo := resolver.memo ++ [(question, answer)] })

/-- Drops all kept answers. -/
def forget (resolver : Resolver) : Resolver :=
  { resolver with memo := [] }

/-- Lets the program that is searched become another one. -/
def setProgram (resolver : Resolver) (program : Value) : Resolver :=
  match resolver.strategy with
  | .scan _ => { resolver with strategy := .scan program }
  | _ => resolver

/-- Sets an entry of the table and counts the names in it.  A list that was given for a table has
its items in place of names. -/
def bind (resolver : Resolver) (name occurrences : Value) : Except Fault (Nat × Resolver) :=
  match resolver.strategy with
  | .table bindings =>
    if name.isKey then
      let bindings := bindings.put name occurrences
      .ok (bindings.size, { resolver with strategy := .table bindings })
    else .error .unsuited
  | .noTable (.arr items) => do
    let items ← Value.setItem items name occurrences
    return (items.length, { resolver with strategy := .noTable (.arr items) })
  | .noTable _ => .error .unsuited
  | _ => .error .notObject

end Resolver

end TreeLint.Usage
