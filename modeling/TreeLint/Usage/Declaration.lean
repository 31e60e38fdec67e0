/-
  The bindings that a program declares at its top level: functions, classes and variables, exported
  or not.

  The declarations are listed in the order of the source and then gathered by name.  A list of
  declarations may end with a fault; what stands before it has been declared.
-/
import TreeLint.Json.Display
import TreeLint.Syntax.Node

set_option autoImplicit false

namespace TreeLint.Usage

open TreeLint.Json TreeLint.Syntax

/-- What a name is declared as. -/
inductive BindingKind where
  /-- A function. -/
  | function
  /-- A class. -/
  | type
  /-- A variable. -/
  | variable
deriving DecidableEq, Repr

/-- The word for a kind of binding. -/
def BindingKind.name : BindingKind → String
  | .function => "function"
  | .type => "class"
  | .variable => "variable"

/-- A name that is declared. -/
structure Declaration where
  /-- The name. -/
  name : Value
  /-- What it is declared as. -/
  kind : BindingKind
  /-- The function, the class, or the declarator of the variable. -/
  node : Value

/-- The declaration in messages. -/
def Declaration.display (d : Declaration) : String :=
  "Declaration(" ++ d.name.shown ++ ", " ++ (Value.str d.kind.name).shown ++ ")"

/-- What is met when something other than a list is gone through for nodes: nothing if it counts as
empty, else an element that is no node, or no elements at all. -/
def strayElements (v : Value) : List Fault :=
  if v.truthy then
    match v with
    | .str _ | .obj _ => [.notObject]
    | _ => [.unsuited]
  else []

/-! ## Names in patterns -/

/-- The names that a pattern binds, in order. -/
def patternNames : Value → List (Except Fault Value)
  | .null => []
  | .obj fields =>
    match (Fields.get fields "type").text? with
    | some "Identifier" => [.ok (Fields.get fields "name")]
    | some "ObjectPattern" =>
      match _ : Fields.get fields "properties" with
      | .arr items => items.attach.flatMap fun item =>
        match _ : item.1 with
        | .obj member =>
          if (Fields.get member "type").isText "RestElement" then
            patternNames (Fields.get member "argument")
          else patternNames (Fields.get member "value")
        | _ => [.error .notObject]
      | v => (strayElements v).map .error
    | some "ArrayPattern" =>
      match _ : Fields.get fields "elements" with
      | .arr items => items.attach.flatMap fun item => patternNames item.1
      | v => (strayElements v).map .error
    | some "RestElement" => patternNames (Fields.get fields "argument")
    | some "AssignmentPattern" => patternNames (Fields.get fields "left")
    | _ => []
  | _ => [.error .notObject]
termination_by v => sizeOf v
decreasing_by
  · have hmember := sizeOf_get_lt member "argument"
    have hlist := sizeOf_lt_of_mem item.2
    have hfield := sizeOf_get_lt fields "properties"
    rw [‹Fields.get fields "properties" = _›] at hfield
    rw [‹item.1 = _›] at hlist
    omega
  · have hmember := sizeOf_get_lt member "value"
    have hlist := sizeOf_lt_of_mem item.2
    have hfield := sizeOf_get_lt fields "properties"
    rw [‹Fields.get fields "properties" = _›] at hfield
    rw [‹item.1 = _›] at hlist
    omega
  · have hlist := sizeOf_lt_of_mem item.2
    have hfield := sizeOf_get_lt fields "elements"
    rw [‹Fields.get fields "elements" = _›] at hfield
    omega
  · exact sizeOf_get_lt fields "argument"
  · exact sizeOf_get_lt fields "left"

/-! ## Declarations -/

/-- The declarations of one declarator. -/
def declaratorDeclarations (declarator : Value) : List (Except Fault Declaration) :=
  match declarator with
  | .obj fields =>
    (patternNames (Fields.get fields "id")).map fun name =>
      name.map fun name => ⟨name, .variable, declarator⟩
  | _ => [.error .notObject]

/-- The declaration of a function or a class, if it has a name. -/
def namedDeclaration (kind : BindingKind) (fields : Fields) : List (Except Fault Declaration) :=
  match Fields.get fields "id" with
  | .null => []
  | .obj id => [.ok ⟨Fields.get id "name", kind, .obj fields⟩]
  | _ => [.error .notObject]

/-- What a statement declares. -/
def statementDeclarations : Value → List (Except Fault Declaration)
  | .null => []
  | .obj fields =>
    match (Fields.get fields "type").text? with
    | some "FunctionDeclaration" => namedDeclaration .function fields
    | some "ClassDeclaration" => namedDeclaration .type fields
    | some "VariableDeclaration" =>
      match Fields.get fields "declarations" with
      | .arr declarators => declarators.flatMap declaratorDeclarations
      | v => (strayElements v).map .error
    | some "ExportNamedDeclaration" => statementDeclarations (Fields.get fields "declaration")
    | some "ExportDefaultDeclaration" => statementDeclarations (Fields.get fields "declaration")
    | _ => []
  | _ => [.error .notObject]
termination_by v => sizeOf v
decreasing_by all_goals exact sizeOf_get_lt fields "declaration"

/-- What a program declares, statement by statement. -/
def programDeclarations (program : Value) : List (Except Fault Declaration) :=
  match program with
  | .obj fields =>
    match Fields.get fields "body" with
    | .arr statements => statements.flatMap statementDeclarations
    | v => (strayElements v).map .error
  | _ => [.error .notObject]

/-! ## Gathering -/

/-- The declarations of each name, names in the order in which they first appear. -/
abbrev Gathered := List (Value × List Declaration)

namespace Gathered

/-- The declarations with one more. -/
def add : Gathered → Declaration → Gathered
  | [], d => [(d.name, [d])]
  | (name, ds) :: rest, d =>
    if name.alike d.name then (name, ds ++ [d]) :: rest else (name, ds) :: add rest d

/-- The declarations of a name. -/
def of (gathered : Gathered) (name : Value) : List Declaration :=
  ((List.find? (fun (key, _) => key.alike name) gathered).map (·.2)).getD []

end Gathered

/-- The declarations of a program by name.  A name has to be fit for a key. -/
def gather (declarations : List (Except Fault Declaration)) : Except Fault Gathered :=
  declarations.foldlM (fun gathered declaration => do
    let d ← declaration
    let _ ← d.name.key
    return gathered.add d) []

/-- What a program declares at its top level, by name. -/
def declarations (program : Value) : Except Fault Gathered :=
  gather (programDeclarations program)

end TreeLint.Usage
