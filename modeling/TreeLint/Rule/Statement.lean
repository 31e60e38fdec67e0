/-
  The rules about single statements: no switch, no else, and no catch block that does nothing.
-/
import TreeLint.Rule.Report
import TreeLint.Source.Comment

set_option autoImplicit false

namespace TreeLint.Rule

open TreeLint.Json TreeLint.Source

/-- Reports every switch statement. -/
def checkSwitch (context : Context) (statement : Value) : Except Fault (List Diagnostic) := do
  return [← context.report statement "noSwitch"]

/-- Reports the other branch of a conditional. -/
def checkElse (context : Context) (conditional : Value) : Except Fault (List Diagnostic) := do
  let branch ← conditional.get "alternate"
  if branch.isNull then return [] else return [← context.report branch "noElse"]

/-- The block of a catch clause swallows the error: it has no statements, or nothing but comments in
its text. -/
def swallows (source : Source) (block : Value) : Except Fault Bool := do
  if (← block.get "body").truthy then blockHasOnlyComments (some source) block else return true

/-- Reports the block of a catch clause that swallows the error. -/
def checkCatch (context : Context) (clause : Value) : Except Fault (List Diagnostic) := do
  match ← clause.get "body" with
  | .null => return []
  | block =>
    if (← block.get "type").isText "BlockStatement" then
      if ← swallows context.source block then
        return [← context.report block "noSwallowedCatch"]
      else return []
    else return []

end TreeLint.Rule
