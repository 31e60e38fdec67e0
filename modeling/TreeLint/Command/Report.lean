/-
  The reports about the files, as a document or as plain text.
-/
import TreeLint.Command.Arguments
import TreeLint.Command.Summary
import TreeLint.Command.Timing
import TreeLint.Json.Printer
import TreeLint.Rule.Report

set_option autoImplicit false

namespace TreeLint.Command

open TreeLint.Json TreeLint.Rule

/-- What became of a file. -/
inductive Result where
  /-- It could not be loaded. -/
  | failed (message : String)
  /-- It was analysed. -/
  | analysed (diagnostics : List Diagnostic)

/-- The report about a file. -/
structure FileReport where
  /-- The name of the file without its directories. -/
  name : String
  /-- The absolute path. -/
  path : String
  /-- What became of it. -/
  result : Result
  /-- How long it took. -/
  timing : Timing

/-! ## Documents -/

/-- A diagnostic as an item of a report. -/
def item (d : Diagnostic) : Value :=
  .obj [("severity", .str d.severity.name), ("source", .str "rule"),
    ("rule", .str (Rule.collection ++ "/" ++ d.rule.name)), ("message_id", .str d.messageId),
    ("line", d.location.line), ("column", d.location.column), ("message", .str d.message)]

/-- The items of a report. -/
def Result.items : Result → List Value
  | .failed _ => []
  | .analysed diagnostics => diagnostics.map item

/-- A list of texts in a document. -/
def texts (list : List String) : Value :=
  .arr (list.map .str)

/-- The report about a file in a document. -/
def FileReport.toValue (rules : List String) (report : FileReport) : Except Fault Value := do
  let items : Value := .arr report.result.items
  let summary ← Summary.of items
  let (ok, error) : Bool × Value := match report.result with
    | .failed message => (false, .str message)
    | .analysed _ => (true, .null)
  return .obj [("file", .str report.name), ("path", .str report.path), ("ok", .bool ok),
    ("error", error), ("items", items), ("summary", summary.toValue),
    ("timing_ms", report.timing.toValue), ("rules", texts rules)]

/-- The report about all files as a line with a document. -/
def documentText (rules : List String) (reports : List FileReport) (total : Float) :
    Except Fault String := do
  let results ← reports.mapM (FileReport.toValue rules)
  let document : Value := .obj [("ok", .bool true), ("results", .arr results),
    ("timing_ms", .obj [("total", timeValue total)]), ("rules", texts rules)]
  return (← document.write) ++ "\n"

/-! ## Plain text -/

/-- The line about a diagnostic. -/
def diagnosticLine (d : Diagnostic) : String :=
  let mark := if d.severity = .error then "[ERROR]" else "[WARN]"
  let place := if d.location.line.whole?.isSome then ", line " ++ d.location.line.display else ""
  mark ++ " " ++ d.message ++ " (" ++ Rule.collection ++ "/" ++ d.rule.name ++ place ++ ")\n"

/-- The line about the times. -/
def timingLine (timing : Timing) : String :=
  "[timing] load: " ++ (timeValue timing.load).display ++ " ms, analysis: " ++
    (timeValue timing.analysis).display ++ " ms, total: " ++ (timeValue timing.total).display ++
    " ms.\n"

/-- The lines about a file, with a heading if there are several. -/
def fileLines (several : Bool) (report : FileReport) : String :=
  let heading := if several then "=== " ++ report.name ++ " ===\n" else ""
  match report.result with
  | .failed message => heading ++ message ++ "\n"
  | .analysed diagnostics =>
    heading ++ String.join (diagnostics.map diagnosticLine) ++ timingLine report.timing

/-- The lines about the files that have a report, of all the files that were asked for.  An empty
line follows every file but the last. -/
def plainText (asked : Nat) (reports : List FileReport) : String :=
  String.join (reports.zipIdx.map fun (report, i) =>
    fileLines (1 < asked) report ++ if i + 1 < asked then "\n" else "")

/-! ## Mistakes in the arguments -/

/-- The output for arguments that make no sense. -/
def usageText (asDocument : Bool) (error : UsageError) : String :=
  if asDocument then
    (Value.obj [("ok", .bool false), ("error", .str error.message)]).print ++ "\n"
  else error.message ++ "\n"

end TreeLint.Command
