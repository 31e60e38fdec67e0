/-
  The command line: files are read from the disk of the machine, times are measured, and the reports
  are written out.
-/
import TreeLint.Command.Run

set_option autoImplicit false

namespace TreeLint.Main

open TreeLint.Json TreeLint.File TreeLint.Command

/-- The cause behind an error of the system. -/
def causeOf (error : IO.Error) : SystemError :=
  match error with
  | .noFileOrDirectory _ _ _ => .notFound
  | .inappropriateType _ code _ => if code = 20 then .notDirectory else .isDirectory
  | .invalidArgument _ 36 _ => .nameTooLong
  | .permissionDenied _ code _ => .other code.toNat "Permission denied"
  | _ => .other 5 "Input/output error"

/-- Something stands at a path of the machine. -/
def stands (path : String) : IO Bool := do
  try
    let _ ← IO.FS.realPath path
    return true
  catch _ => return false

/-- What stands at a path of the machine. -/
def probe (path : String) : IO (Except SystemError Entry) := do
  try
    return .ok (.file (← IO.FS.readBinFile path))
  catch error =>
    match causeOf error with
    | .isDirectory => return .ok .directory
    | .other code words =>
      let cause := .other code words
      -- a file that cannot be opened may stand there all the same
      if ← stands path then return .ok (.locked cause) else return .error cause
    | cause => return .error cause

/-- The part of the machine's disk that loading a file can look at. -/
def diskFor (path : String) (source : Option String) : IO Disk := do
  let paths := path :: (siblingPath? path).toList ++ source.toList
  let found ← paths.mapM fun path => do return (path, ← probe path)
  return fun path => (found.lookup path).getD (.error .notFound)

/-- The milliseconds between two readings of the clock. -/
def milliseconds (start stop : Nat) : Float :=
  Float.ofNat (stop - start) / 1000000

/-- Loads and analyses one file, and measures both. -/
def take (settings : Settings) (path : String) : IO Taking := do
  let start ← IO.monoNanosNow
  let disk ← diskFor path settings.source
  let loaded ← IO.lazyPure fun _ => load disk path settings.source
  let middle ← IO.monoNanosNow
  let attempt ← IO.lazyPure fun _ => analyse settings.engine path loaded
  let stop ← IO.monoNanosNow
  let loading := milliseconds start middle
  let analysis := match attempt.result with
    | .ok (.analysed _) => milliseconds middle stop
    | _ => 0
  return ⟨path, attempt, ⟨loading, analysis, loading + analysis⟩⟩

/-- Takes the files one after the other, up to the first fault. -/
def takeAll (settings : Settings) (shown : ShownPath) : List String → IO (List Taking)
  | [] => return []
  | path :: rest => do
    let taking ← take settings path
    match taking.report shown with
    | .error _ => return [taking]
    | .ok _ => return taking :: (← takeAll settings shown rest)

/-- Runs the command and gives its exit code. -/
def run (args : List String) : IO UInt32 := do
  let asDocument := wantsDocument args
  match settings args with
  | .error error =>
    IO.print (usageText asDocument error)
    return 0
  | .ok settings =>
    let current := normalize [] (← IO.currentDir).toString
    let start ← IO.monoNanosNow
    let takings ← takeAll settings (shownPath asDocument current) settings.files
    let stop ← IO.monoNanosNow
    let out := output asDocument settings current takings (milliseconds start stop)
    IO.eprint out.stderr
    IO.print out.stdout
    match out.failure with
    | none => return 0
    | some fault =>
      IO.eprintln (fault.message?.getD "The tree is not shaped as the rules expect.")
      return 1

end TreeLint.Main

/-- The command line. -/
def main (args : List String) : IO UInt32 :=
  TreeLint.Main.run args
