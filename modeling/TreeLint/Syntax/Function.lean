/-
  Shapes of functions and of the statements in them.
-/
import TreeLint.Syntax.Expression
import TreeLint.Syntax.Link

set_option autoImplicit false

namespace TreeLint.Syntax

open TreeLint.Json

/-- The statement leaves the function: it returns or throws, alone or in blocks of its own. -/
def exitsEarly : Value → Except Fault Bool
  | .null => .ok false
  | .obj fields =>
    match (Fields.get fields "type").isOneOf ["ReturnStatement", "ThrowStatement"] with
    | .error fault => .error fault
    | .ok true => .ok true
    | .ok false =>
      if (Fields.get fields "type").isText "BlockStatement" then
        match _ : (Fields.get fields "body").orEmpty.only with
        | .ok (some statement) => exitsEarly statement
        | .ok none => .ok false
        | .error fault => .error fault
      else .ok false
  | _ => .error .notObject
termination_by v => sizeOf v
decreasing_by exact Nat.lt_of_le_of_lt (Value.sizeOf_only_le ‹_›) (sizeOf_get_lt fields "body")

/-- What a function's block holds as its statements, if the function has a block. -/
def bodyStatements (function : Value) : Except Fault (Option Value) := do
  match ← function.get "body" with
  | .null => return none
  | .obj fields =>
    if (Fields.get fields "type").isText "BlockStatement" then
      return some (Fields.get fields "body").orEmpty
    else return none
  | _ => .error .notObject

/-- The only statement of a function's block. -/
def soleStatement (function : Value) : Except Fault (Option Value) := do
  match ← bodyStatements function with
  | none => return none
  | some statements => statements.only

/-- The conditional that is a function's whole body.  It has no other branch, and it is no guard: a
guard leaves the function when a negated condition holds. -/
def wholeBodyConditional (function : Value) : Except Fault (Option Value) := do
  match ← soleStatement function with
  | none => return none
  | some statement =>
    let kind ← statement.get "type"
    if !kind.isText "IfStatement" then return none
    else if !(← statement.get "alternate").isNull then return none
    else if ← isNegation (← statement.get "test") then
      if ← exitsEarly (← statement.get "consequent") then return none
      else return some statement
    else return some statement

/-- The call that a statement consists of: as an expression of its own or as the value returned. -/
def statementCall : Value → Except Fault (Option Value)
  | .null => .ok none
  | .obj fields => do
    let kind := Fields.get fields "type"
    let field? :=
      if kind.isText "ExpressionStatement" then some "expression"
      else if kind.isText "ReturnStatement" then some "argument"
      else none
    match field? with
    | none => return none
    | some field =>
      let inner ← unwrap callLayers (Fields.get fields field)
      if isKind inner "CallExpression" then return some inner else return none
  | _ => .error .notObject

/-! ## Forwarding -/

/-- Parameters that can be passed on as they are. -/
structure Parameters where
  /-- The names of the plain ones. -/
  names : List Value
  /-- The name of the one that takes all the rest, absent when there is none. -/
  rest : Value

/-- The parameters after those that are already known; nothing if one of them does more than take a
value, or stands after the one that takes the rest. -/
def readParameters (known : Parameters) : List Value → Except Fault (Option Parameters)
  | [] => .ok (some known)
  | parameter :: others => do
    if !known.rest.isNull then return none
    else if ← isIdentifier parameter then
      let name ← parameter.require "name"
      readParameters { known with names := known.names ++ [name] } others
    else if (← parameter.get "type").isText "RestElement" then
      let argument ← parameter.get "argument"
      if ← isIdentifier argument then
        let name ← argument.require "name"
        readParameters { known with rest := name } others
      else return none
    else return none

/-- The arguments are identifiers of the given names, as far as both reach. -/
def passesNames : List Value → List Value → Except Fault Bool
  | name :: names, argument :: arguments => do
    if ← isIdentifierNamed argument name then passesNames names arguments else return false
  | _, _ => .ok true

/-- The arguments pass on exactly the given parameters, in order. -/
def passesParameters (parameters : Parameters) (arguments : Value) : Except Fault Bool := do
  let count ← arguments.size
  let expected := parameters.names.length + if parameters.rest.isNull then 0 else 1
  if count ≠ expected then return false
  else if ← passesNames parameters.names (← arguments.elements) then
    if parameters.rest.isNull then return true
    else
      let last ← arguments.last
      if (← last.get "type").isText "SpreadElement" then
        isIdentifierNamed (← last.get "argument") parameters.rest
      else return false
  else return false

/-- The function does nothing but pass its parameters on to one call, unchanged and in order. -/
def forwardsParameters (function : Value) : Except Fault Bool := do
  match ← soleStatement function with
  | none => return false
  | some statement =>
    match ← statementCall statement with
    | none => return false
    | some call =>
      let arguments := (← call.get "arguments").orEmpty
      let written ← (← function.get "params").orEmpty.elements
      match ← readParameters ⟨[], .null⟩ written with
      | none => return false
      | some parameters => passesParameters parameters arguments

/-- The function is what an export statement declares: the way back leads to such a statement, and
the function stands in its declaration. -/
def isExportedDirectly (root : Value) (path : Path) (function : Value) : Except Fault Bool := do
  match ← function.get parentField with
  | .null => return false
  | .link above =>
    let parent := (at? root above).getD .null
    return (isKind parent "ExportNamedDeclaration" || isKind parent "ExportDefaultDeclaration") &&
      path == ⟨"declaration", none⟩ :: above
  | .obj _ => return false
  | _ => .error .notObject

end TreeLint.Syntax
