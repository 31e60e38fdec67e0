/-
  Shapes of expressions.

  Some kinds only wrap another expression: an awaited call, an optional chain, parentheses.  They
  are taken off before the shape is looked at.
-/
import TreeLint.Syntax.Node

set_option autoImplicit false

namespace TreeLint.Syntax

open TreeLint.Json

/-- Kinds that wrap an expression, each with the field that holds it. -/
abbrev Layers := List (String × String)

/-- The layers around a call. -/
def callLayers : Layers :=
  [("AwaitExpression", "argument"), ("ChainExpression", "expression"),
   ("ParenthesizedExpression", "expression")]

/-- The layers that only group. -/
def groupLayers : Layers :=
  [("ChainExpression", "expression"), ("ParenthesizedExpression", "expression")]

/-- The expression inside all layers. -/
def unwrap (layers : Layers) : Value → Except Fault Value
  | .null => .ok .null
  | .obj fields =>
    match Fields.get fields "type" with
    | .str kind =>
      match layers.lookup kind with
      | some field => unwrap layers (Fields.get fields field)
      | none => .ok (.obj fields)
    | .arr _ | .obj _ | .link _ => .error .unsuited
    | _ => .ok (.obj fields)
  | _ => .error .notObject
termination_by v => sizeOf v
decreasing_by exact sizeOf_get_lt fields field

/-- The expression is a negation. -/
def isNegation : Value → Except Fault Bool
  | .null => .ok false
  | .obj fields =>
    .ok ((Fields.get fields "type").isText "UnaryExpression" &&
      (Fields.get fields "operator").isText "!")
  | _ => .error .notObject

/-- The expression is an identifier. -/
def isIdentifier : Value → Except Fault Bool
  | .null => .ok false
  | .obj fields => .ok ((Fields.get fields "type").isText "Identifier")
  | _ => .error .notObject

/-- The expression is an identifier of the given name; an absent name stands for any. -/
def isIdentifierNamed (v name : Value) : Except Fault Bool := do
  if ← isIdentifier v then
    if name.isNull then return true
    else return (← v.get "name").same name
  else return false

/-- The expression names a thing that exists already: a variable or a member of an object. -/
def isAlias (v : Value) : Except Fault Bool := do
  match ← unwrap groupLayers v with
  | .obj fields =>
    let kind := Fields.get fields "type"
    return kind.isText "Identifier" || kind.isText "MemberExpression"
  | _ => return false

/-! ## Constants -/

/-- The value is a number, truth values not counted. -/
def isNumber : Value → Bool
  | .int _ | .float _ => true
  | _ => false

/-- The value is a truth value. -/
def isTruthValue : Value → Bool
  | .bool _ => true
  | _ => false

/-- The expression is a literal that a sign can stand before: a number, however large. -/
def isNumericLiteral : Value → Except Fault Bool
  | .null => .ok false
  | .obj fields =>
    .ok ((Fields.get fields "type").isText "Literal" &&
      (isNumber (Fields.get fields "value") || !(Fields.get fields "bigint").isNull))
  | _ => .error .notObject

/-- The expression is the literal of a truth value. -/
def isBooleanLiteral : Value → Except Fault Bool
  | .null => .ok false
  | .obj fields =>
    .ok ((Fields.get fields "type").isText "Literal" && isTruthValue (Fields.get fields "value"))
  | _ => .error .notObject

/-- The literal with these fields is neither a pattern of a regular expression nor anything that
holds other values. -/
def isPlainLiteral (fields : Fields) : Bool :=
  (Fields.get fields "regex").isNull &&
    match Fields.get fields "value" with
    | .arr _ | .obj _ | .link _ => false
    | _ => true

/-- The expression is a constant: a plain literal, a number with signs before it, a negated truth
value, or a template without holes. -/
def isConstant (v : Value) : Except Fault Bool := do
  match ← unwrap groupLayers v with
  | .obj fields =>
    let kind := Fields.get fields "type"
    if kind.isText "TemplateLiteral" then return !(Fields.get fields "expressions").truthy
    else if kind.isText "Literal" then return isPlainLiteral fields
    else if kind.isText "UnaryExpression" then
      let operator := Fields.get fields "operator"
      if ← operator.isOneOf ["+", "-", "~"] then isNumericLiteral (Fields.get fields "argument")
      else if operator.isText "!" then isBooleanLiteral (Fields.get fields "argument")
      else return false
    else return false
  | _ => return false

end TreeLint.Syntax
