/-
  The rules about functions: guard clauses in place of a conditional around the whole body, and no
  exported functions that only call another one.
-/
import TreeLint.Rule.Report
import TreeLint.Syntax.Function

set_option autoImplicit false

namespace TreeLint.Rule

open TreeLint.Json TreeLint.Syntax

/-- Reports the conditional that is a function's whole body. -/
def checkGuardClauses (context : Context) (function : Value) : Except Fault (List Diagnostic) := do
  match ← wholeBodyConditional function with
  | none => return []
  | some conditional => return [← context.report conditional "requireGuardClause"]

/-- Reports an exported function that passes its parameters on and does nothing else. -/
def checkEmptyWrapper (context : Context) (root : Value) (visit : Visit) :
    Except Fault (List Diagnostic) := do
  if ← isExportedDirectly root visit.path visit.node then
    if ← forwardsParameters visit.node then
      return [← context.report visit.node "noEmptyWrapper"]
    else return []
  else return []

end TreeLint.Rule
