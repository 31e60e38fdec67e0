/-
  Files and directories.

  A disk says for each path what stands there, or why nothing can be reached.  A tree of files is a
  disk: paths are followed step by step from the working directory, and every step but the last has
  to be a directory.
-/
import TreeLint.Fault
import TreeLint.Text.Quoted

set_option autoImplicit false

namespace TreeLint.File

/-- Why a path cannot be followed or opened. -/
inductive SystemError where
  /-- There is nothing of that name. -/
  | notFound
  /-- A file stands where a directory is needed. -/
  | notDirectory
  /-- A directory stands where a file is needed. -/
  | isDirectory
  /-- The name is too long. -/
  | nameTooLong
  /-- Any other cause, with its number and its words. -/
  | other (code : Nat) (words : String)
deriving DecidableEq, Repr

namespace SystemError

/-- The number of a cause. -/
def code : SystemError → Nat
  | .notFound => 2
  | .notDirectory => 20
  | .isDirectory => 21
  | .nameTooLong => 36
  | .other code _ => code

/-- The words for a cause. -/
def words : SystemError → String
  | .notFound => "No such file or directory"
  | .notDirectory => "Not a directory"
  | .isDirectory => "Is a directory"
  | .nameTooLong => "File name too long"
  | .other _ words => words

/-- The message about a path. -/
def message (error : SystemError) (path : String) : String :=
  "[Errno " ++ toString error.code ++ "] " ++ error.words ++ ": " ++ Text.quoted path

end SystemError

/-- What stands at a path. -/
inductive Entry where
  /-- A directory. -/
  | directory
  /-- A file with its bytes. -/
  | file (bytes : ByteArray)
  /-- A file that cannot be opened, and why. -/
  | locked (error : SystemError)
  /-- Neither a directory nor a file, such as a device, and what reading it gives. -/
  | device (content : Except SystemError ByteArray)

/-- What stands at each path, or why it cannot be reached. -/
abbrev Disk := String → Except SystemError Entry

namespace Disk

/-- Something stands at the path. -/
def holds (disk : Disk) (path : String) : Bool :=
  match disk path with
  | .ok _ => true
  | .error _ => false

/-- A file stands at the path, whether it can be opened or not. -/
def holdsFile (disk : Disk) (path : String) : Bool :=
  match disk path with
  | .ok (.file _) => true
  | .ok (.locked _) => true
  | _ => false

/-- The bytes that reading from the path gives. -/
def read (disk : Disk) (path : String) : Except SystemError ByteArray :=
  match disk path with
  | .ok (.file bytes) => .ok bytes
  | .ok (.locked error) => .error error
  | .ok (.device content) => content
  | .ok .directory => .error .isDirectory
  | .error error => .error error

end Disk

/-! ## Paths -/

/-- The part of a path after the last slash. -/
def baseName (path : String) : String :=
  String.ofList (path.toList.reverse.takeWhile (· ≠ '/')).reverse

/-- The parts of a path between slashes, possibly empty. -/
def parts (path : String) : List String :=
  path.splitOn "/"

/-- The names from the root to the place that a path stands for when nothing on the way is looked
at. -/
def normalize (start : List String) (path : String) : List String :=
  let first := if path.startsWith "/" then [] else start
  (parts path).foldl (fun names part =>
    if part = "" ∨ part = "." then names
    else if part = ".." then names.dropLast
    else names ++ [part]) first

/-- The absolute path of the place with the given names. -/
def absolute (names : List String) : String :=
  "/" ++ String.intercalate "/" names

/-- The path holds a NUL, which no name can. -/
def hasNul (path : String) : Bool :=
  path.contains '\x00'

/-- The absolute path of the place that a path stands for, seen from a directory. -/
def absolutePath (start : List String) (path : String) : Except Fault String :=
  if hasNul path then .error .nulInPath else .ok (absolute (normalize start path))

/-! ## Trees of files -/

/-- Files and directories by their names from the root, and the directory from which paths start.
Directories on the way to an entry are there without being listed. -/
structure Tree where
  /-- The entries with the names that lead to them. -/
  entries : List (List String × Entry)
  /-- The names of the working directory. -/
  current : List String

namespace Tree

/-- The most bytes that a name may have. -/
def nameLimit : Nat := 255

/-- The most bytes that a path may have. -/
def pathLimit : Nat := 4095

/-- What stands at the given names. -/
def at? (tree : Tree) (names : List String) : Option Entry :=
  match tree.entries.lookup names with
  | some entry => some entry
  | none =>
    if names.isPrefixOf tree.current || tree.entries.any fun entry => names.isPrefixOf entry.1 then
      some .directory
    else none

/-- Follows the parts of a path from a directory. -/
def follow (tree : Tree) : List String → List String → Except SystemError Entry
  | _, [] => .ok .directory
  | names, part :: rest =>
    if part = "" ∨ part = "." then follow tree names rest
    else if part = ".." then follow tree names.dropLast rest
    else if nameLimit < part.utf8ByteSize then .error .nameTooLong
    else
      match tree.at? (names ++ [part]) with
      | none => .error .notFound
      | some .directory => follow tree (names ++ [part]) rest
      | some entry => if rest = [] then .ok entry else .error .notDirectory

/-- The disk that a tree of files is. -/
def disk (tree : Tree) : Disk := fun path =>
  if path = "" then .error .notFound
  else if pathLimit < path.utf8ByteSize then .error .nameTooLong
  else tree.follow (if path.startsWith "/" then [] else tree.current) (parts path)

end Tree

end TreeLint.File
