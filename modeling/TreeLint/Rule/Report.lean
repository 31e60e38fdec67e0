/-
  Reports.

  A rule reports a node by the id of one of its messages.  The diagnostic that results depends on
  the node, the message, the rule and the text under analysis, and on nothing that was reported before.
-/
import TreeLint.Json.Display
import TreeLint.Json.Table
import TreeLint.Rule.Info
import TreeLint.Source.Text

set_option autoImplicit false

namespace TreeLint.Rule

open TreeLint.Json TreeLint.Syntax TreeLint.Source

/-- How serious a diagnostic is. -/
inductive Severity where
  /-- It should be mended. -/
  | error
  /-- It could be better. -/
  | warning
deriving DecidableEq, Repr

/-- The word for a severity. -/
def Severity.name : Severity → String
  | .error => "error"
  | .warning => "warning"

/-- What rules of a category report is an error if it is probably wrong, else a warning. -/
def Category.severity : Category → Severity
  | .problem => .error
  | _ => .warning

/-- Something that a rule has found. -/
structure Diagnostic where
  /-- The rule. -/
  rule : Rule
  /-- The id of the message. -/
  messageId : String
  /-- The message. -/
  message : String
  /-- The place. -/
  location : Location
  /-- The span, when the node has one. -/
  span : Option Span

/-- How serious a diagnostic is, by its rule. -/
def Diagnostic.severity (d : Diagnostic) : Severity :=
  d.rule.info.category.severity

/-- The offset of the first character, absent without a span. -/
def Diagnostic.start (d : Diagnostic) : Value :=
  (d.span.map Span.start).getD .null

/-- The offset after the last character, absent without a span. -/
def Diagnostic.stop (d : Diagnostic) : Value :=
  (d.span.map Span.stop).getD .null

/-- What a rule sees of a file. -/
structure Context where
  /-- The rule. -/
  rule : Rule
  /-- The options of the rule. -/
  options : Table
  /-- The text. -/
  source : Source
  /-- The table of bindings, absent when there is none. -/
  bindings : Value

/-- What reports leave behind: the diagnostics so far, and the line starts of the text once they are
known. -/
structure Desk where
  /-- The diagnostics. -/
  sink : List Diagnostic
  /-- The line starts. -/
  starts : Option (List Nat)

/-- The desk before the first report. -/
def Desk.clear : Desk :=
  ⟨[], none⟩

namespace Context

/-- The diagnostic for a node and one of the rule's messages. -/
def report (context : Context) (node : Value) (id : String) : Except Fault Diagnostic :=
  match context.rule.info.messages.lookup id with
  | none => .error (.noMessage context.rule.name id)
  | some message => do
    let location ← context.source.locationOf node
    let span ← Syntax.span node
    return ⟨context.rule, id, message, location, span⟩

/-- The diagnostic for a node and an id of any kind, with the line starts of the text kept. -/
def keptReport (context : Context) (node id : Value) : Keeping Diagnostic := do
  match ← id.key with
  | .str id =>
    match context.rule.info.messages.lookup id with
    | none => throw (.noMessage context.rule.name id)
    | some message =>
      let location ← context.source.keptLocationOf node
      let span ← Syntax.span node
      return ⟨context.rule, id, message, location, span⟩
  | other => throw (.noMessage context.rule.name other.display)

/-- One report after others: the outcome, and what there is on the desk then.  A report that fails adds
no diagnostic. -/
def reportTo (context : Context) (desk : Desk) (node id : Value) : Except Fault Unit × Desk :=
  match (context.keptReport node id).run.run desk.starts with
  | (.ok d, starts) => (.ok (), ⟨desk.sink ++ [d], starts⟩)
  | (.error fault, starts) => (.error fault, ⟨desk.sink, starts⟩)

/-- A sequence of reports: after each of them the outcome and the number of diagnostics, and in the
end what there is on the desk. -/
def reportAll (context : Context) :
    Desk → List (Value × Value) → List (Except Fault Unit × Nat) × Desk
  | desk, [] => ([], desk)
  | desk, (node, id) :: rest =>
    let (outcome, desk) := context.reportTo desk node id
    let (outcomes, final) := reportAll context desk rest
    ((outcome, desk.sink.length) :: outcomes, final)

/-- The diagnostics for those nodes that pass a test, each in the place of its node. -/
def reportWhere (context : Context) (id : String) (test : Value → Except Fault Bool)
    (nodes : List Value) : Except Fault (List (Option Diagnostic)) :=
  nodes.mapM fun node => do
    if ← test node then return some (← context.report node id) else return none

end Context

end TreeLint.Rule
