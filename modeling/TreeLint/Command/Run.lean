/-
  The command from its arguments to its output.

  Files are taken one after the other.  A file that cannot be loaded is reported and the next one
  follows; a fault in an analysis ends the command, and what was written until then stands.
-/
import TreeLint.Command.Report
import TreeLint.File.Load
import TreeLint.Rule.Engine

set_option autoImplicit false

namespace TreeLint.Command

open TreeLint.Json TreeLint.Rule TreeLint.File

/-- The options that the settings give to the rules. -/
def Settings.options (settings : Settings) : Value :=
  if settings.allowReExport then
    .obj [(Rule.exportCodeLast.name, .obj [("allowReExport", .bool true)])]
  else .obj []

/-- The engine for the settings. -/
def Settings.engine (settings : Settings) : Engine :=
  ⟨settings.rules, settings.options, settings.debug⟩

/-- What loading and analysing a file gives. -/
structure Attempt where
  /-- What became of the file, or the fault that ends the command. -/
  result : Except Fault Result
  /-- The visits that were reported. -/
  trace : String

/-- The message about a file that gives no program. -/
def failedMessage (path : String) (refusal : Refusal) : String :=
  "Failed to load " ++ baseName path ++ ": " ++ refusal.message

/-- Analyses what was loaded from a file. -/
def analyse (engine : Engine) (path : String) (loaded : Except Failure Loaded) : Attempt :=
  match loaded with
  | .error (.refused refusal) => ⟨.ok (.failed (failedMessage path refusal)), ""⟩
  | .error (.broken fault) => ⟨.error fault, ""⟩
  | .ok file =>
    ⟨(engine.run file.program file.text file.bindings).map .analysed, engine.trace file.program⟩

/-- What the command writes, and the fault that ended it if there was one. -/
structure Output where
  /-- The report. -/
  stdout : String
  /-- The visits that were reported. -/
  stderr : String
  /-- The fault that ended the command. -/
  failure : Option Fault

/-- A file as far as it was taken: its path, the attempt and the times. -/
structure Taking where
  /-- The path. -/
  path : String
  /-- What came of it. -/
  attempt : Attempt
  /-- How long it took. -/
  timing : Timing

/-- How the path of a file is shown in reports. -/
abbrev ShownPath := String → Except Fault String

/-- A document shows the absolute path as seen from the working directory.  Plain text shows none, so
any path will do. -/
def shownPath (asDocument : Bool) (current : List String) : ShownPath :=
  if asDocument then absolutePath current else .ok

/-- The report about a file that was taken. -/
def Taking.report (shown : ShownPath) (taking : Taking) : Except Fault FileReport := do
  let result ← taking.attempt.result
  return ⟨baseName taking.path, ← shown taking.path, result, taking.timing⟩

/-- The reports up to the first fault, and the fault. -/
def reportsOf (shown : ShownPath) : List Taking → List FileReport × Option Fault
  | [] => ([], none)
  | taking :: rest =>
    match taking.report shown with
    | .error fault => ([], some fault)
    | .ok report =>
      let (reports, fault) := reportsOf shown rest
      (report :: reports, fault)

/-- The visits reported up to the first fault. -/
def tracesOf (shown : ShownPath) : List Taking → String
  | [] => ""
  | taking :: rest =>
    taking.attempt.trace ++
      match taking.report shown with
      | .error _ => ""
      | .ok _ => tracesOf shown rest

/-- The output for the files that were taken. -/
def output (asDocument : Bool) (settings : Settings) (current : List String)
    (takings : List Taking) (total : Float) : Output :=
  let shown := shownPath asDocument current
  let (reports, fault) := reportsOf shown takings
  let stderr := tracesOf shown takings
  if asDocument then
    match fault with
    | some fault => ⟨"", stderr, some fault⟩
    | none =>
      match documentText settings.ruleNames reports total with
      | .ok text => ⟨text, stderr, none⟩
      | .error fault => ⟨"", stderr, some fault⟩
  else ⟨plainText settings.files.length reports, stderr, fault⟩

/-- The times of a command that takes no time. -/
def noTime : Timing :=
  ⟨0, 0, 0⟩

/-- The command on a disk, in a working directory, with a clock that stands still. -/
def run (disk : Disk) (current : List String) (args : List String) : Output :=
  let asDocument := wantsDocument args
  match settings args with
  | .error error => ⟨usageText asDocument error, "", none⟩
  | .ok settings =>
    let takings := settings.files.map fun path =>
      ⟨path, analyse settings.engine path (load disk path settings.source), noTime⟩
    output asDocument settings current takings 0

end TreeLint.Command
