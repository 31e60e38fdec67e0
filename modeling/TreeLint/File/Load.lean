/-
  Programs read from files.

  A file holds a program, or an object with the program, its source text and its table of bindings.
  The source text comes from the file that is named for it, else from that object, else from the
  file next to the tree whose name lacks the ending `.json`.
-/
import TreeLint.File.Disk
import TreeLint.Json.Reader
import TreeLint.Syntax.Link
import TreeLint.Text.Newline

set_option autoImplicit false

namespace TreeLint.File

open TreeLint.Json TreeLint.Syntax

/-- A program with all that is known about it. -/
structure Loaded where
  /-- The linked program. -/
  program : Value
  /-- The source text, absent when it is not known. -/
  text : Value
  /-- The table of bindings, absent when there is none. -/
  bindings : Value

/-- Why a file gives no program. -/
inductive Refusal where
  /-- Nothing stands at the path. -/
  | missing (path : String)
  /-- What stands at the path is no file. -/
  | notFile (path : String)
  /-- The file holds no document. -/
  | notDocument (base : String) (line column : Nat)
  /-- The document holds no program. -/
  | notProgram (base : String)
  /-- The source text cannot be opened. -/
  | unreadable (path : String) (error : SystemError)
deriving DecidableEq, Repr

/-- The words for a refusal. -/
def Refusal.message : Refusal → String
  | .missing path => "Input file does not exist: " ++ path
  | .notFile path => "Input path is not a file: " ++ path
  | .notDocument base line column =>
    s!"Could not parse '{base}' as JSON (line {line}, column {column}). " ++
      "Expected an ESTree Program as written by the parser frontend."
  | .notProgram base => s!"'{base}' does not hold an ESTree Program node."
  | .unreadable path error =>
    s!"Could not read source text '{path}': " ++ error.message path

/-- How loading ends without a program. -/
inductive Failure where
  /-- The file gives no program. -/
  | refused (refusal : Refusal)
  /-- Loading itself could not go on. -/
  | broken (fault : Fault)
deriving DecidableEq, Repr

/-- The text that the bytes of a file are. -/
def decode (bytes : ByteArray) : Except Failure (List Char) :=
  match String.fromUTF8? bytes with
  | some s => .ok (Text.unifyNewlines s.toList)
  | none => .error (.broken .notText)

/-- The document in a file. -/
def readDocument (disk : Disk) (path : String) : Except Failure Value := do
  if !disk.holds path || hasNul path then .error (.refused (.missing path))
  else if !disk.holdsFile path then .error (.refused (.notFile path))
  else
    match disk.read path with
    | .error error => .error (.broken (.unopened error.code))
    | .ok bytes =>
      let cs ← decode bytes
      match Json.read cs with
      | .ok v => return v
      | .error .tooManyDigits => .error (.broken .tooManyDigits)
      | .error (.here left) =>
        let (line, column) := lineAndColumn cs left
        .error (.refused (.notDocument (baseName path) line column))

/-- The source text in a file. -/
def readSource (disk : Disk) (path : String) : Except Failure Value := do
  if hasNul path then .error (.broken .nulInPath)
  else
    match disk.read path with
    | .error error => .error (.refused (.unreadable path error))
    | .ok bytes => return .str (String.ofList (← decode bytes))

/-- The ending of the names of trees. -/
def treeEnding : String := ".json"

/-- The path of the source next to a tree, whether something stands there or not. -/
def siblingPath? (path : String) : Option String :=
  if treeEnding.toList.isSuffixOf path.toList then
    some (String.ofList (path.toList.take (path.length - treeEnding.length)))
  else none

/-- The file next to a tree that holds its source. -/
def sibling? (disk : Disk) (path : String) : Option String :=
  (siblingPath? path).filter disk.holdsFile

/-- The parts of a document: program, source text and bindings. -/
def unpack (document : Value) : Value × Value × Value :=
  match document with
  | .obj fields =>
    match isNode document, fields.lookup "program" with
    | false, some program =>
      (program, Fields.get fields "sourceText", Fields.get fields "bindings")
    | _, _ => (document, .null, .null)
  | _ => (document, .null, .null)

/-- The file from which the source text is read, if it is read from one. -/
def sourcePath? (disk : Disk) (path : String) (source : Option String) (text : Value) :
    Option String :=
  match source with
  | some source => some source
  | none => if text.isNull then sibling? disk path else none

/-- The program in a file, with its source text and its bindings. -/
def load (disk : Disk) (path : String) (source : Option String) : Except Failure Loaded := do
  let document ← readDocument disk path
  let (program, text, bindings) := unpack document
  if !isKind program "Program" then .error (.refused (.notProgram (baseName path)))
  else
    let text ← match sourcePath? disk path source text with
      | some source => readSource disk source
      | none => pure text
    match linkParents program with
    | .ok linked => return ⟨linked, text, bindings⟩
    | .error fault => .error (.broken fault)

end TreeLint.File
