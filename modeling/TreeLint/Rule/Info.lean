/-
  The rules and what is known about each of them: its name, its purpose, its messages and its
  options.
-/
import TreeLint.Fault

set_option autoImplicit false

namespace TreeLint

/-- The rules, in the order in which they are applied to a node. -/
inductive Rule where
  /-- A function's whole body must not be one conditional. -/
  | requireGuardClauses
  /-- A catch block must do something about the error. -/
  | noSwallowedCatch
  /-- Exports stand at the end of a file, and export something of their own. -/
  | exportCodeLast
  /-- An exported function must do more than call another one. -/
  | noEmptyWrappers
  /-- There are no switch statements. -/
  | noSwitch
  /-- There are no else branches. -/
  | noElse
deriving DecidableEq, Repr

namespace Rule

/-- What kind of advice a rule gives. -/
inductive Category where
  /-- There is a better way to write it. -/
  | suggestion
  /-- It is probably wrong. -/
  | problem
  /-- It stands in the wrong place. -/
  | layout
deriving DecidableEq, Repr

/-- The word for a category. -/
def Category.name : Category → String
  | .suggestion => "suggestion"
  | .problem => "problem"
  | .layout => "layout"

/-- The type that the value of an option has to have. -/
inductive OptionType where
  /-- A truth value. -/
  | bool
deriving DecidableEq, Repr

/-- The word for a type of options. -/
def OptionType.name : OptionType → String
  | .bool => "bool"

/-- What is known about a rule. -/
structure Info where
  /-- The name. -/
  name : String
  /-- The kind of advice. -/
  category : Category
  /-- What the rule asks for. -/
  description : String
  /-- The messages by their ids. -/
  messages : List (String × String)
  /-- The options with their types. -/
  options : List (String × OptionType)
  /-- The kinds of nodes that the rule looks at. -/
  kinds : List String

/-- What is known about each rule. -/
def info : Rule → Info
  | .requireGuardClauses =>
    { name := "require-guard-clauses"
      category := .suggestion
      description := "Require guard clauses by forbidding a single if-statement that wraps the " ++
        "entire function body."
      messages :=
        [("requireGuardClause", "Avoid wrapping the entire function body in an if. Use a guard " ++
          "clause / early return instead.")]
      options := []
      kinds := ["FunctionDeclaration", "FunctionExpression", "ArrowFunctionExpression"] }
  | .noSwallowedCatch =>
    { name := "no-swallowed-catch"
      category := .problem
      description := "Forbid empty or comment-only catch blocks that swallow errors."
      messages :=
        [("noSwallowedCatch", "Do not swallow errors in catch blocks. Handle, log, rethrow, or " ++
          "explicitly justify it.")]
      options := []
      kinds := ["CatchClause"] }
  | .exportCodeLast =>
    { name := "export-code-last"
      category := .layout
      description := "Require value exports at the bottom of the file, but allow type-only " ++
        "exports anywhere."
      messages :=
        [("exportsLast", "Value export statements should appear at the end of the file " ++
          "(type-only exports are exempt)."),
         ("noExportSpecifiers", "Do not use `export \x7b ... \x7d` for local values. " ++
          "Export the declaration directly at the bottom of the file instead."),
         ("noExportAlias", "Do not export local aliases like `export const x = y`. " ++
          "Export the declaration directly at the bottom of the file instead."),
         ("noDefaultExportAlias", "Do not default-export a local binding by name. Export the " ++
          "declaration directly instead.")]
      options := [("allowReExport", .bool)]
      kinds := ["Program"] }
  | .noEmptyWrappers =>
    { name := "no-empty-wrappers"
      category := .suggestion
      description := "Disallow exported empty wrapper functions that only pass through to " ++
        "another call."
      messages :=
        [("noEmptyWrapper", "Do not export empty wrapper functions. Export the implementation " ++
          "directly instead.")]
      options := []
      kinds := ["FunctionDeclaration", "FunctionExpression", "ArrowFunctionExpression"] }
  | .noSwitch =>
    { name := "no-switch"
      category := .suggestion
      description := "Disallow switch statements."
      messages := [("noSwitch", "Do not use switch statements.")]
      options := []
      kinds := ["SwitchStatement"] }
  | .noElse =>
    { name := "no-else"
      category := .suggestion
      description := "Disallow else branches."
      messages := [("noElse", "Do not use else branches. Return early instead.")]
      options := []
      kinds := ["IfStatement"] }

/-- The name of a rule. -/
def name (rule : Rule) : String :=
  rule.info.name

/-- All rules, in order. -/
def all : List Rule :=
  [.requireGuardClauses, .noSwallowedCatch, .exportCodeLast, .noEmptyWrappers, .noSwitch, .noElse]

/-- The rule of a name. -/
def ofName? (name : String) : Option Rule :=
  all.find? fun rule => rule.name == name

/-- Different rules have different names. -/
theorem name_injective {a b : Rule} (h : a.name = b.name) : a = b := by
  revert h
  cases a <;> cases b <;> decide

/-- The names of all rules in alphabetical order. -/
def sortedNames : List String :=
  (all.map name).mergeSort fun a b => decide (a ≤ b)

/-- The name under which the rules are known as a whole. -/
def collection : String := "inhuman"

/-- A rule that is still to be written: it may have a name, and has no checks yet. -/
structure Draft where
  /-- The name, if one is chosen. -/
  name : Option String

/-- A rule of which nothing is decided. -/
def Draft.blank : Draft :=
  ⟨none⟩

/-- The kinds of nodes that a draft looks at: nobody knows yet. -/
def Draft.kinds (_ : Draft) : Except Fault (List String) :=
  .error (.unimplemented "create")

end Rule

end TreeLint
