/-
  Options and the choice of rules.

  Options are given for each rule by name.  What is given is checked before an analysis, and copied
  for each file, so that no rule can change it for another.
-/
import TreeLint.Json.Table
import TreeLint.Rule.Info

set_option autoImplicit false

namespace TreeLint.Rule

open TreeLint.Json

/-! ## The choice of rules -/

/-- The texts in order, each of them once. -/
def sortedDistinct (texts : List String) : List String :=
  (texts.mergeSort fun a b => decide (a ≤ b)).eraseReps

/-- The rules that are asked for, all of them when nothing is.  Every name has to be known. -/
def select (wanted : Value) : Except Fault (List Rule) := do
  if !wanted.truthy then return all
  else
    let names ← (← wanted.elements).mapM Value.key
    let unknown := names.filter fun name => !all.any fun rule => name.isText rule.name
    if unknown.isEmpty then
      return all.filter fun rule => names.any fun name => name.isText rule.name
    else
      match unknown.mapM Value.text? with
      | some texts => .error (.unknownRules (sortedDistinct texts))
      | none => .error .unsuited

/-! ## Checking options -/

/-- The fields of an object; a value that counts as empty has none. -/
def fieldsOrNone (v : Value) : Except Fault Fields :=
  if !v.truthy then .ok []
  else
    match v with
    | .obj fields => .ok fields
    | _ => .error .notObject

/-- The value has the type of an option. -/
def OptionType.holds : OptionType → Value → Bool
  | .bool, .bool _ => true
  | .bool, _ => false

/-- Checks one option of a rule. -/
def checkOption (rule : Rule) (option : String) (value : Value) : Except Fault Unit :=
  match rule.info.options.lookup option with
  | none => .error (.unknownOption rule.name option)
  | some type =>
    if type.holds value then .ok () else .error (.optionType rule.name option type.name)

/-- Checks what is given for one rule. -/
def checkRuleOptions (name : String) (values : Value) : Except Fault Unit :=
  match ofName? name with
  | none => .error (.optionsOfUnknownRule name)
  | some rule => do
    (← fieldsOrNone values).forM fun (option, value) => checkOption rule option value

/-- Checks all options. -/
def checkOptions (options : Value) : Except Fault Unit := do
  (← fieldsOrNone options).forM fun (name, values) => checkRuleOptions name values

/-! ## Copies for a file -/

/-- The options of each rule by its name. -/
abbrev RuleOptions := List (String × Table)

/-- A copy of the options. -/
def copyOptions (options : Value) : Except Fault RuleOptions := do
  (← fieldsOrNone options).mapM fun (name, values) => do
    return (name, ← Table.ofValue values)

/-- The options of one rule. -/
def optionsFor (options : RuleOptions) (rule : Rule) : Table :=
  (options.lookup rule.name).getD .empty

end TreeLint.Rule
