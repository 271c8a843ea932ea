import Narrowing.Text.Path

/-!
# Files

What the command sees of files: a path gives a text, or a reason why not.  A file tree in memory can stand for the
files of the system.
-/

namespace Narrowing.Command

/-- Why a file gives no text. -/
inductive FileFailure where
  | missing
  | directory
  /-- It cannot be opened for another reason. -/
  | closed (reason : String)
  deriving DecidableEq, Repr

/-- What is said about the file at a path. -/
def FileFailure.message (path : String) : FileFailure → String
  | missing => "open " ++ path ++ ": no such file or directory"
  | directory => "read " ++ path ++ ": is a directory"
  | closed reason => "open " ++ path ++ ": " ++ reason

/-- How files are read. -/
abbrev FileReader (m : Type → Type) := String → m (Except FileFailure String)

/-- Files in memory, each with the names that lead to it from the root.  A directory is there if a file is below it, or
the working directory is. -/
structure FileTree where
  dir : List String
  files : List (List String × String)

namespace FileTree

def isDirectory (t : FileTree) (names : List String) : Bool :=
  names.isPrefixOf t.dir || t.files.any fun f => names.isPrefixOf f.1 && names != f.1

/-- A directory can be left; a file cannot, and nothing is below it. -/
def leave (t : FileTree) (names : List String) : Except FileFailure (List String) :=
  if t.isDirectory names then .ok names
  else if (t.files.lookup names).isSome then .error (.closed "not a directory")
  else .error .missing

/-- Go by one name. -/
def step (t : FileTree) (names : List String) (name : String) : Except FileFailure (List String) := do
  return Text.walk (← t.leave names) [name]

/-- The text of the file at a path. -/
def read (t : FileTree) (path : String) : Except FileFailure String := do
  if path.isEmpty then throw .missing
  let start := if path.startsWith "/" then [] else t.dir
  let names ← (Text.pathNames path).foldlM t.step start
  if path.endsWith "/" then discard (t.leave names)
  match t.files.lookup names with
  | some text => return text
  | none => throw (if t.isDirectory names then .directory else .missing)

end FileTree

end Narrowing.Command
