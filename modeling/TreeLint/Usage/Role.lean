/-
  What an identifier is at the place where it stands.

  The role of a child follows from its parent, the field that holds it and the parent's own role.
  Places that are no use and no binding of a variable are left out altogether, with everything below
  them: types, labels, and names of properties.
-/
import TreeLint.Syntax.Node
import TreeLint.Text.Uppercase

set_option autoImplicit false

namespace TreeLint.Usage

open TreeLint.Json TreeLint.Syntax

/-- What an identifier is. -/
inductive Role where
  /-- A use of a binding. -/
  | reference
  /-- The name of a declaration, an import or an export. -/
  | declaration
  /-- A binding inside a pattern. -/
  | pattern
deriving DecidableEq, Repr

/-- The word for a role. -/
def Role.name : Role → String
  | .reference => "reference"
  | .declaration => "declaration"
  | .pattern => "pattern"

/-- Fields that hold nothing but types. -/
def typeFields : List String :=
  ["typeAnnotation", "returnType", "typeParameters", "typeArguments", "superTypeArguments",
   "implements"]

/-- The kinds of the type language that hold expressions, with the fields that hold them.  Of a
qualified name only the left-most part is read. -/
def typedExpressionFields : List (String × List String) :=
  [("TSAsExpression", ["expression"]), ("TSSatisfiesExpression", ["expression"]),
   ("TSNonNullExpression", ["expression"]), ("TSTypeAssertion", ["expression"]),
   ("TSInstantiationExpression", ["expression"]), ("TSExportAssignment", ["expression"]),
   ("TSParameterProperty", ["parameter"]), ("TSEnumDeclaration", ["members", "body"]),
   ("TSEnumBody", ["members"]), ("TSEnumMember", ["initializer"]),
   ("TSModuleDeclaration", ["body"]), ("TSModuleBlock", ["body"]),
   ("TSImportEqualsDeclaration", ["moduleReference"]), ("TSQualifiedName", ["left"])]

/-- A node of this kind is a type and nothing else. -/
def isTypeKind (kind : String) : Bool :=
  kind.startsWith "TS" && (typedExpressionFields.lookup kind).isNone

/-- The kinds of patterns, and the members of one. -/
def patternKinds : List String :=
  ["ObjectPattern", "ArrayPattern", "RestElement", "AssignmentPattern", "Property"]

/-- The kinds that name what they declare. -/
def namedKinds : List String :=
  functionKinds ++ ["ClassDeclaration", "ClassExpression"]

/-- The kinds that have a label. -/
def labelKinds : List String :=
  ["LabeledStatement", "BreakStatement", "ContinueStatement"]

/-- The kinds that have a key. -/
def keyedKinds : List String :=
  ["Property", "MethodDefinition", "PropertyDefinition", "AccessorProperty"]

/-- The kinds of the parts of an import. -/
def importKinds : List String :=
  ["ImportSpecifier", "ImportDefaultSpecifier", "ImportNamespaceSpecifier"]

/-- The role of a child that is part of a pattern, where the pattern decides it. -/
def patternRole? (kind field : String) (computed : Bool) : Option (Option Role) :=
  if kind = "Property" ∧ field = "key" then some (if computed then some .reference else none)
  else if kind = "AssignmentPattern" ∧ field = "right" then some (some .reference)
  else if patternKinds.contains kind then some (some .pattern)
  else none

/-- The role of a child by the kind of its parent and its field; nothing where it is left out. -/
def plainRole (kind field : String) (computed : Bool) : Option Role :=
  if field = "id" ∧ namedKinds.contains kind then some .declaration
  else if field = "params" ∧ functionKinds.contains kind then some .pattern
  else if field = "param" ∧ kind = "CatchClause" then some .pattern
  else if field = "id" ∧ kind = "VariableDeclarator" then some .pattern
  else if field = "label" ∧ labelKinds.contains kind then none
  else if importKinds.contains kind then some .declaration
  else if kind = "ExportSpecifier" then some .declaration
  else if kind = "ExportAllDeclaration" ∧ field = "exported" then none
  else if kind = "ImportAttribute" ∧ field = "key" then none
  else if field = "key" ∧ keyedKinds.contains kind ∧ !computed then none
  else if field = "property" ∧ kind = "MemberExpression" ∧ !computed then none
  else if kind = "MetaProperty" then none
  else some .reference

/-- The role of a child, given its parent and the parent's role; nothing where it is left out.
Namespaces that are only declared and imports of types are types. -/
def childRole (parent : Value) (e : Edge) (role : Role) : Option Role :=
  let kind := (kind? parent).getD ""
  let field := e.step.field
  let fields := match parent with
    | .obj fields => fields
    | _ => []
  let computed := (Fields.get fields "computed").truthy
  if typeFields.contains field || isTypeKind ((kind? e.child).getD "") then none
  else if kind = "TSModuleDeclaration" ∧ (Fields.get fields "declare").truthy then none
  else if kind = "TSImportEqualsDeclaration" ∧ (Fields.get fields "importKind").isText "type" then
    none
  else
    match typedExpressionFields.lookup kind with
    | some expressions =>
      if !expressions.contains field then none
      else if kind = "TSParameterProperty" then some .pattern
      else some .reference
    | none =>
      match if role = .pattern then patternRole? kind field computed else none with
      | some decided => decided
      | none => plainRole kind field computed

/-! ## Element tags -/

/-- The name of an element starts with an upper-case character, so that it is a variable and not an
element of the language itself. -/
def isComponentName (fields : Fields) : Except Fault Bool :=
  match fields.lookup "name" with
  | none => .ok false
  | some (.str s) => .ok (Text.startsUppercase s)
  | some (.arr _) => .error .notObject
  | some _ => .error .unsuited

/-- The tag stands for a variable: it names an element, or the object whose member does. -/
def isTagReference (parent : Value) (e : Edge) : Except Fault Bool :=
  let kind := (kind? parent).getD ""
  if (kind = "JSXOpeningElement" ∨ kind = "JSXClosingElement") ∧ e.step.field = "name" then
    match e.child with
    | .obj fields => isComponentName fields
    | _ => .error .notObject
  else .ok (kind == "JSXMemberExpression" && e.step.field == "object")

end TreeLint.Usage
