/-
  The kinds of nodes and the fields that hold their children.

  For the kinds of the language the children are listed field by field, in the order in which they
  stand in the source.  The children of any other kind are looked for in all of its fields.
-/
set_option autoImplicit false

namespace TreeLint.Syntax

/-- The fields that hold children, for each kind of the language. -/
def kindTable : List (String × List String) :=
  [("Program", ["body"]),
   ("ExpressionStatement", ["expression"]),
   ("BlockStatement", ["body"]),
   ("StaticBlock", ["body"]),
   ("EmptyStatement", []),
   ("DebuggerStatement", []),
   ("ReturnStatement", ["argument"]),
   ("ThrowStatement", ["argument"]),
   ("IfStatement", ["test", "consequent", "alternate"]),
   ("SwitchStatement", ["discriminant", "cases"]),
   ("SwitchCase", ["test", "consequent"]),
   ("WhileStatement", ["test", "body"]),
   ("DoWhileStatement", ["body", "test"]),
   ("ForStatement", ["init", "test", "update", "body"]),
   ("ForInStatement", ["left", "right", "body"]),
   ("ForOfStatement", ["left", "right", "body"]),
   ("LabeledStatement", ["label", "body"]),
   ("BreakStatement", ["label"]),
   ("ContinueStatement", ["label"]),
   ("TryStatement", ["block", "handler", "finalizer"]),
   ("CatchClause", ["param", "body"]),
   ("WithStatement", ["object", "body"]),
   ("FunctionDeclaration", ["id", "typeParameters", "params", "returnType", "body"]),
   ("FunctionExpression", ["id", "typeParameters", "params", "returnType", "body"]),
   ("ArrowFunctionExpression", ["typeParameters", "params", "returnType", "body"]),
   ("ClassDeclaration",
     ["decorators", "id", "typeParameters", "superClass", "superTypeArguments", "implements",
      "body"]),
   ("ClassExpression",
     ["decorators", "id", "typeParameters", "superClass", "superTypeArguments", "implements",
      "body"]),
   ("ClassBody", ["body"]),
   ("MethodDefinition", ["decorators", "key", "value"]),
   ("PropertyDefinition", ["decorators", "key", "typeAnnotation", "value"]),
   ("AccessorProperty", ["decorators", "key", "typeAnnotation", "value"]),
   ("VariableDeclaration", ["declarations"]),
   ("VariableDeclarator", ["id", "init"]),
   ("Identifier", ["decorators", "typeAnnotation"]),
   ("PrivateIdentifier", []),
   ("Literal", []),
   ("ThisExpression", []),
   ("Super", []),
   ("TemplateLiteral", ["quasis", "expressions"]),
   ("TemplateElement", []),
   ("TaggedTemplateExpression", ["tag", "typeArguments", "quasi"]),
   ("ArrayExpression", ["elements"]),
   ("ObjectExpression", ["properties"]),
   ("Property", ["key", "value"]),
   ("SpreadElement", ["argument"]),
   ("UnaryExpression", ["argument"]),
   ("UpdateExpression", ["argument"]),
   ("BinaryExpression", ["left", "right"]),
   ("LogicalExpression", ["left", "right"]),
   ("AssignmentExpression", ["left", "right"]),
   ("ConditionalExpression", ["test", "consequent", "alternate"]),
   ("SequenceExpression", ["expressions"]),
   ("CallExpression", ["callee", "typeArguments", "arguments"]),
   ("NewExpression", ["callee", "typeArguments", "arguments"]),
   ("MemberExpression", ["object", "property"]),
   ("ChainExpression", ["expression"]),
   ("ParenthesizedExpression", ["expression"]),
   ("AwaitExpression", ["argument"]),
   ("YieldExpression", ["argument"]),
   ("ImportExpression", ["source", "options"]),
   ("MetaProperty", ["meta", "property"]),
   ("ObjectPattern", ["properties", "typeAnnotation"]),
   ("ArrayPattern", ["elements", "typeAnnotation"]),
   ("RestElement", ["argument", "typeAnnotation"]),
   ("AssignmentPattern", ["left", "right"]),
   ("ImportDeclaration", ["specifiers", "source", "attributes"]),
   ("ImportSpecifier", ["imported", "local"]),
   ("ImportDefaultSpecifier", ["local"]),
   ("ImportNamespaceSpecifier", ["local"]),
   ("ImportAttribute", ["key", "value"]),
   ("ExportNamedDeclaration", ["declaration", "specifiers", "source", "attributes"]),
   ("ExportDefaultDeclaration", ["declaration"]),
   ("ExportAllDeclaration", ["exported", "source", "attributes"]),
   ("ExportSpecifier", ["local", "exported"]),
   ("Decorator", ["expression"])]

/-- The fields that hold the children of a kind of the language. -/
def listedFields? (kind : String) : Option (List String) :=
  kindTable.lookup kind

/-- The field that leads from a node back to the node above it.  It never holds a child. -/
def parentField : String := "parent"

/-- What is found for a kind stands in the table. -/
theorem mem_kindTable {kind : String} {fields : List String}
    (h : listedFields? kind = some fields) : (kind, fields) ∈ kindTable := by
  unfold listedFields? at h
  generalize kindTable = table at h
  induction table with
  | nil => cases h
  | cons row rest ih =>
    obtain ⟨name, names⟩ := row
    rw [List.lookup_cons] at h
    by_cases hk : kind = name
    · subst hk
      rw [beq_self_eq_true] at h
      cases h
      exact List.mem_cons_self
    · rw [beq_false_of_ne hk] at h
      exact List.mem_cons_of_mem _ (ih h)

/-- No kind lists the way back among its children. -/
theorem parentField_not_mem_listedFields {kind : String} {fields : List String}
    (h : listedFields? kind = some fields) : parentField ∉ fields := by
  have hall : ∀ row ∈ kindTable, parentField ∉ row.2 := by decide
  exact hall _ (mem_kindTable h)

/-- The three kinds of functions. -/
def functionKinds : List String :=
  ["FunctionDeclaration", "FunctionExpression", "ArrowFunctionExpression"]

/-- The kinds of statements that export something. -/
def exportKinds : List String :=
  ["ExportAllDeclaration", "ExportDefaultDeclaration", "ExportNamedDeclaration"]

end TreeLint.Syntax
