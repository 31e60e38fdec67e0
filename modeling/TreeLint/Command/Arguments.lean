/-
  The arguments of the command.

  Flags may stand anywhere among the files.  Two of them take a value: the argument that follows,
  whatever it is.
-/
import TreeLint.Rule.Options
import TreeLint.Text.Blank
import TreeLint.Text.Lowercase

set_option autoImplicit false

namespace TreeLint.Command

/-- What the arguments ask for. -/
structure Settings where
  /-- The tree files, in order. -/
  files : List String
  /-- The rules to apply. -/
  rules : List Rule
  /-- The file with the source text. -/
  source : Option String
  /-- Exports of other files' exports may stand anywhere. -/
  allowReExport : Bool
  /-- Visits are reported. -/
  debug : Bool

/-- Why the arguments make no sense. -/
inductive UsageError where
  /-- A flag stands last and lacks its value; a hint may say what it would be. -/
  | missingValue (flag hint : String)
  /-- Rules were asked for that do not exist. -/
  | unknownRules (names : List String)
  /-- There are no files. -/
  | noFiles
  /-- One source text was given for several files. -/
  | sourceForMany
deriving DecidableEq, Repr

/-- The message that a flag lacks its value. -/
def missingValueMessage (flag : String) : String :=
  "Missing value after " ++ flag ++ "."

/-- The words for a mistake in the arguments. -/
def UsageError.message : UsageError → String
  | .missingValue flag hint => missingValueMessage flag ++ hint
  | .unknownRules names =>
    "Unknown rule(s): " ++ String.intercalate ", " names ++ ". Valid rules: " ++
      String.intercalate ", " Rule.sortedNames ++ "."
  | .noFiles => "No files provided."
  | .sourceForMany => "--source can only be used with a single tree file."

/-! ## Flags with values -/

/-- What a flag with a value gives. -/
inductive Taken (α : Type) where
  /-- The flag is not there. -/
  | absent
  /-- The flag stands last. -/
  | missing
  /-- The value, and the other arguments. -/
  | value (v : α) (others : List α)

/-- Takes the first occurrence of a flag, with the argument after it, out of the arguments. -/
def takeValue {α : Type} [BEq α] (flag : α) : List α → Taken α
  | [] => .absent
  | arg :: rest =>
    if arg == flag then
      match rest with
      | [] => .missing
      | v :: others => .value v others
    else
      match takeValue flag rest with
      | .absent => .absent
      | .missing => .missing
      | .value v others => .value v (arg :: others)

/-- The value of a flag and the other arguments. -/
def valueOf (flag hint : String) (args : List String) :
    Except UsageError (Option String × List String) :=
  match takeValue flag args with
  | .absent => .ok (none, args)
  | .missing => .error (.missingValue flag hint)
  | .value v others => .ok (some v, others)

/-! ## Rules by name -/

/-- The texts between the commas, without blanks at their ends and in lower case; empty ones do not
count. -/
def namesIn (list : String) : List String :=
  ((list.splitOn ",").map fun part => Text.trim part.toList).filterMap fun part =>
    if part.isEmpty then none else some (Text.lower (String.ofList part))

/-- The rules of the given names, all rules if there are no names. -/
def rulesNamed (names : List String) : Except UsageError (List Rule) :=
  let unknown := names.filter fun name => (Rule.ofName? name).isNone
  if !unknown.isEmpty then .error (.unknownRules (Rule.sortedDistinct unknown))
  else if names.isEmpty then .ok Rule.all
  else .ok (Rule.all.filter fun rule => names.contains rule.name)

/-! ## All arguments -/

/-- The flag that asks for plain text. -/
def textFlag : String := "--text"

/-- The flag that asks for a report of visits. -/
def debugFlag : String := "--debug"

/-- The flag that lets exports of other files' exports stand anywhere. -/
def reExportFlag : String := "--allow-re-export"

/-- The arguments without a flag that has no value. -/
def without (flag : String) (args : List String) : List String :=
  args.filter (· ≠ flag)

/-- The output is a document and not plain text. -/
def wantsDocument (args : List String) : Bool :=
  !args.contains textFlag

/-- What the arguments ask for. -/
def settings (args : List String) : Except UsageError Settings := do
  let args := without textFlag args
  let debug := args.contains debugFlag
  let args := without debugFlag args
  let allowReExport := args.contains reExportFlag
  let args := without reExportFlag args
  let (source, args) ← valueOf "--source" "" args
  let (list, files) ← valueOf "--rules" " (expected comma-separated rule names)" args
  let rules ← rulesNamed ((list.map namesIn).getD [])
  if files.isEmpty then .error .noFiles
  else if source.isSome && 1 < files.length then .error .sourceForMany
  else return ⟨files, rules, source, allowReExport, debug⟩

/-- The names of the rules to apply, in alphabetical order. -/
def Settings.ruleNames (settings : Settings) : List String :=
  (settings.rules.map Rule.name).mergeSort fun a b => decide (a ≤ b)

end TreeLint.Command
