/-
  Shapes of export statements.
-/
import TreeLint.Syntax.Expression

set_option autoImplicit false

namespace TreeLint.Syntax

open TreeLint.Json

/-- The fields of a node, nothing for an absent one. -/
def fieldsOf? : Value → Except Fault (Option Fields)
  | .null => .ok none
  | .obj fields => .ok (some fields)
  | _ => .error .notObject

/-- The statement exports something. -/
def isExport (v : Value) : Except Fault Bool := do
  match ← fieldsOf? v with
  | none => return false
  | some fields => (Fields.get fields "type").isOneOf exportKinds

/-- The statement exports types only: it says so itself, or each of its specifiers does. -/
def exportsOnlyTypes (v : Value) : Except Fault Bool := do
  match ← fieldsOf? v with
  | none => return false
  | some fields =>
    let kind := Fields.get fields "type"
    let marked := (Fields.get fields "exportKind").isText "type"
    if kind.isText "ExportAllDeclaration" then return marked
    else if !kind.isText "ExportNamedDeclaration" then return false
    else if marked then return true
    else
      let specifiers := Fields.get fields "specifiers"
      if specifiers.truthy then
        (← specifiers.elements).allM fun specifier => do
          return (← specifier.get "exportKind").isText "type"
      else return false

/-- The statement exports names of this file in a list. -/
def listsLocalNames (v : Value) : Except Fault Bool := do
  match ← fieldsOf? v with
  | none => return false
  | some fields =>
    return (Fields.get fields "type").isText "ExportNamedDeclaration" &&
      (Fields.get fields "declaration").isNull && (Fields.get fields "source").isNull &&
      (Fields.get fields "specifiers").truthy

/-- The variable declaration that a named export holds. -/
def exportedVariables (v : Value) : Except Fault (Option Fields) := do
  match ← fieldsOf? v with
  | none => return none
  | some fields =>
    if !(Fields.get fields "type").isText "ExportNamedDeclaration" then return none
    else
      match ← fieldsOf? (Fields.get fields "declaration") with
      | none => return none
      | some declaration =>
        if (Fields.get declaration "type").isText "VariableDeclaration" then
          return some declaration
        else return none

/-- The statement exports a variable that only gives another name to something. -/
def exportsAlias (v : Value) : Except Fault Bool := do
  match ← exportedVariables v with
  | none => return false
  | some declaration =>
    (← (Fields.get declaration "declarations").orEmpty.elements).anyM fun declarator => do
      isAlias (← declarator.get "init")

/-- The statement exports named constants only. -/
def exportsConstants (v : Value) : Except Fault Bool := do
  match ← fieldsOf? v with
  | none => return false
  | some fields =>
    if !(Fields.get fields "source").isNull then return false
    else
      match ← exportedVariables v with
      | none => return false
      | some declaration =>
        let declarators := Fields.get declaration "declarations"
        if !(Fields.get declaration "kind").isText "const" then return false
        else if !declarators.truthy then return false
        else
          (← declarators.elements).allM fun declarator => do
            if ← isIdentifier (← declarator.get "id") then
              isConstant (← declarator.get "init")
            else return false

/-- The statement passes on what another file exports. -/
def isReExport (v : Value) : Except Fault Bool := do
  match ← fieldsOf? v with
  | none => return false
  | some fields =>
    let kind := Fields.get fields "type"
    return kind.isText "ExportAllDeclaration" ||
      (kind.isText "ExportNamedDeclaration" && !(Fields.get fields "source").isNull)

/-- The statement may stand anywhere in the file. -/
def isExempt (allowReExport : Bool) (v : Value) : Except Fault Bool := do
  if ← exportsOnlyTypes v then return true
  else if ← exportsConstants v then return true
  else if allowReExport then isReExport v
  else return false

/-- The name that a default export gives away, absent for any other statement. -/
def defaultName (v : Value) : Except Fault Value := do
  match ← fieldsOf? v with
  | none => return .null
  | some fields =>
    if !(Fields.get fields "type").isText "ExportDefaultDeclaration" then return .null
    else
      let declaration := Fields.get fields "declaration"
      if ← isIdentifier declaration then declaration.require "name" else return .null

end TreeLint.Syntax
