/-
  Why an analysis stops.

  Trees come from outside and any field may hold anything, so an operation may meet a value that it
  cannot work with.  The first such meeting ends the analysis, and its cause is the answer.
-/
set_option autoImplicit false

namespace TreeLint

/-- The cause that ended an operation. -/
inductive Fault where
  /-- A field was asked of a value that is not an object. -/
  | notObject
  /-- A value of this kind does not take the operation. -/
  | unsuited
  /-- An object was indexed by a field that it lacks. -/
  | noField
  /-- A rule was to report a message that it does not have. -/
  | noMessage (rule id : String)
  /-- A list was to become a table and does not consist of pairs. -/
  | notPairs
  /-- A text was to be read as a number and is none. -/
  | notNumber
  /-- A whole number is too large for a floating-point number. -/
  | tooLarge
  /-- An offset lies outside a list. -/
  | outOfRange
  /-- A whole number has too many digits to be read or written. -/
  | tooManyDigits
  /-- A file cannot be opened, for the cause with this number. -/
  | unopened (code : Nat)
  /-- The bytes of a file are not text. -/
  | notText
  /-- The name of a file holds a NUL. -/
  | nulInPath
  /-- A value that leads back to itself was to be written out. -/
  | circular
  /-- Rules were asked for that do not exist. -/
  | unknownRules (names : List String)
  /-- Options were given for a rule that does not exist. -/
  | optionsOfUnknownRule (rule : String)
  /-- A rule was given an option that it does not have. -/
  | unknownOption (rule option : String)
  /-- An option has a value of the wrong type. -/
  | optionType (rule option type : String)
  /-- A part that has to be filled in was left open. -/
  | unimplemented (part : String)
deriving DecidableEq, Repr

namespace Fault

/-- The words for a cause, where it has any. -/
def message? : Fault → Option String
  | .noMessage rule id => some s!"Rule '{rule}' has no message '{id}'"
  | .unknownRules names => some ("Unknown rule(s): " ++ String.intercalate ", " names)
  | .optionsOfUnknownRule rule => some s!"Options given for unknown rule '{rule}'"
  | .unknownOption rule option => some s!"Rule '{rule}' has no option '{option}'"
  | .optionType rule option type => some s!"Option '{option}' of rule '{rule}' must be {type}"
  | .unimplemented part => some s!"{part}() must be implemented"
  | _ => none

end Fault

end TreeLint
