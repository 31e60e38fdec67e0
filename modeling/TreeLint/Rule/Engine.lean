/-
  The analysis of a file.

  The nodes of the program are visited in order, and at each node every chosen rule that looks at
  its kind reports.  The diagnostics are then put in the order of their places, those at the same place
  as they were reported.
-/
import TreeLint.Rule.Export
import TreeLint.Rule.Function
import TreeLint.Rule.Options
import TreeLint.Rule.Statement

set_option autoImplicit false

namespace TreeLint.Rule

open TreeLint.Json TreeLint.Syntax TreeLint.Source

/-- What a rule reports at a node of a kind that it looks at. -/
def check (context : Context) (root : Value) (visit : Visit) : Except Fault (List Diagnostic) :=
  match context.rule with
  | .requireGuardClauses => checkGuardClauses context visit.node
  | .noSwallowedCatch => checkCatch context visit.node
  | .exportCodeLast => checkExports context visit.node
  | .noEmptyWrappers => checkEmptyWrapper context root visit
  | .noSwitch => checkSwitch context visit.node
  | .noElse => checkElse context visit.node

/-- The rule looks at the node. -/
def looksAt (rule : Rule) (node : Value) : Bool :=
  rule.info.kinds.any fun kind => isKind node kind

/-- What the rules report at a node, rule by rule. -/
def checkNode (contexts : List Context) (root : Value) (visit : Visit) :
    Except Fault (List Diagnostic) := do
  let found ← (contexts.filter fun context => context.rule.looksAt visit.node).mapM fun context =>
    check context root visit
  return found.flatten

/-- What the rules report at the given nodes, node by node. -/
def checkVisits (contexts : List Context) (root : Value) (visits : List Visit) :
    Except Fault (List Diagnostic) := do
  return (← visits.mapM (checkNode contexts root)).flatten

/-! ## Order -/

/-- The place of diagnostics without a whole number for an offset. -/
def lastPosition : Int := 1000000000

/-- The number by which diagnostics are ordered. -/
def Diagnostic.position (d : Diagnostic) : Int :=
  d.start.whole?.getD lastPosition

/-- The diagnostics in the order of their places. -/
def inOrder (diagnostics : List Diagnostic) : List Diagnostic :=
  diagnostics.mergeSort fun a b => decide (a.position ≤ b.position)

end TreeLint.Rule

namespace TreeLint

/-- A choice of rules with their options. -/
structure Engine where
  /-- The rules. -/
  rules : List Rule
  /-- The options as they were given. -/
  options : TreeLint.Json.Value
  /-- Whether visits are reported. -/
  debug : Bool

namespace Engine

open TreeLint.Json TreeLint.Syntax TreeLint.Source TreeLint.Rule

/-- An engine for the rules that are asked for, with checked options. -/
def build (wanted options : Value) (debug : Bool) : Except Fault Engine := do
  let rules ← Rule.select wanted
  checkOptions options
  return ⟨rules, options, debug⟩

/-- What the rules see of a file. -/
def contexts (engine : Engine) (options : RuleOptions) (text bindings : Value) : List Context :=
  engine.rules.map fun rule => ⟨rule, optionsFor options rule, ⟨text⟩, bindings⟩

/-- The diagnostics for a program. -/
def run (engine : Engine) (program text bindings : Value) : Except Fault (List Diagnostic) := do
  let options ← copyOptions engine.options
  let visits ← walk program
  let found ← checkVisits (engine.contexts options text bindings) program visits
  return inOrder found

/-- The lines that a run reports while it visits the nodes, if it does. -/
def trace (engine : Engine) (program : Value) : String :=
  match engine.debug, copyOptions engine.options with
  | true, .ok _ => Syntax.trace program
  | _, _ => ""

end Engine

end TreeLint
