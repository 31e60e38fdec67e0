/-
  The rule about exports.

  Declarations come first and exports last.  Exports of types and of constants may stand anywhere,
  and so may exports of what another file exports when the option allows it.  Exports that only add
  another name are reported wherever they stand: lists of local names, aliases, and the default
  export of a name, unless that is a variable that is used elsewhere too.
-/
import TreeLint.Rule.Report
import TreeLint.Syntax.Export
import TreeLint.Usage.Declaration
import TreeLint.Usage.Query

set_option autoImplicit false

namespace TreeLint.Rule

open TreeLint.Json TreeLint.Syntax TreeLint.Usage

/-- The statement lists local values for export. -/
def listsLocalValues (statement : Value) : Except Fault Bool := do
  if ← listsLocalNames statement then return !(← exportsOnlyTypes statement) else return false

/-- The name belongs to a variable, to no function and no class, and is used outside the export.  The
answer comes with the resolver, which keeps it if it had to be worked out. -/
def isUsedVariable (declared : Gathered) (name statement : Value) (resolver : Resolver) :
    Except Fault (Bool × Resolver) := do
  let found := declared.of (← name.key)
  if found.any fun d => d.kind == .function || d.kind == .type then return (false, resolver)
  else if found.any fun d => d.kind == .variable then
    let (answer, resolver) := resolver.ask name [statement]
    return (← answer, resolver)
  else return (false, resolver)

/-- The statement exports a name by default that is not a variable used elsewhere. -/
def exportsBareName (declared : Gathered) (statement : Value) (resolver : Resolver) :
    Except Fault (Bool × Resolver) := do
  let name ← defaultName statement
  if name.isNull then return (false, resolver)
  else
    let (used, resolver) ← isUsedVariable declared name statement resolver
    return (!used, resolver)

/-- The diagnostics for default exports of bare names, each in the place of its statement.  One
resolver answers for all statements. -/
def reportBareNames (context : Context) (declared : Gathered) :
    Resolver → List Value → Except Fault (List (Option Diagnostic))
  | _, [] => .ok []
  | resolver, statement :: rest => do
    let (bare, resolver) ← exportsBareName declared statement resolver
    if bare then
      let d ← context.report statement "noDefaultExportAlias"
      return some d :: (← reportBareNames context declared resolver rest)
    else return none :: (← reportBareNames context declared resolver rest)

/-- The number of statements before the last one that is no export, given the statements from the
last to the first; nothing if all are exports. -/
def beforeLastOther : List Value → Except Fault (Option Nat)
  | [] => .ok none
  | statement :: earlier => do
    if ← isExport statement then beforeLastOther earlier else return some earlier.length

/-- The statement is an export that has to stand at the end, if it was not reported already. -/
def isMisplaced (allowReExport : Bool) (statement : Value) (reported : Bool) :
    Except Fault Bool := do
  if !(← isExport statement) then return false
  else if reported then return false
  else return !(← isExempt allowReExport statement)

/-- The diagnostics for exports that stand before another statement. -/
def reportMisplaced (context : Context) (allowReExport : Bool) :
    List (Value × Bool) → Except Fault (List Diagnostic)
  | [] => .ok []
  | (statement, reported) :: rest => do
    if ← isMisplaced allowReExport statement reported then
      let d ← context.report statement "exportsLast"
      return d :: (← reportMisplaced context allowReExport rest)
    else reportMisplaced context allowReExport rest

/-- The option that lets exports of other files' exports stand anywhere. -/
def allowsReExport (options : Table) : Bool :=
  match options.find? (.str "allowReExport") with
  | some (.bool true) => true
  | _ => false

/-- Reports the exports of a program that only add a name, and those that stand too early. -/
def checkExports (context : Context) (program : Value) : Except Fault (List Diagnostic) := do
  let body := (← program.get "body").orEmpty
  if !body.truthy then return []
  else
    let statements ← body.elements
    let lists ← context.reportWhere "noExportSpecifiers" listsLocalValues statements
    let aliases ← context.reportWhere "noExportAlias" exportsAlias statements
    let resolver := Resolver.ofStrategy (Strategy.choose program context.bindings)
    let declared ← declarations program
    let names ← reportBareNames context declared resolver statements
    let reported := (lists.zip (aliases.zip names)).map fun (a, b, c) =>
      a.isSome || b.isSome || c.isSome
    let early ← match ← beforeLastOther statements.reverse with
      | none => pure []
      | some count =>
        reportMisplaced context (allowsReExport context.options)
          ((statements.zip reported).take count)
    return lists.filterMap id ++ aliases.filterMap id ++ names.filterMap id ++ early

end TreeLint.Rule
