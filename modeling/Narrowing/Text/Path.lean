/-!
# Paths

Paths with slashes, taken as text: no file system is asked.  A directory is the list of the names that lead to it from
the root.
-/

namespace Narrowing.Text

/-- The names in a path. -/
def pathNames (path : String) : List String := (path.splitOn "/").filter fun s => s != "" && s != "."

/-- Go from a directory to another by a list of names; two points lead up. -/
def walk (dir : List String) (names : List String) : List String :=
  names.foldl (fun d n => if n == ".." then d.dropLast else d ++ [n]) dir

/-- The names of a path that is taken from a directory, unless it starts at the root. -/
def absolute (dir : List String) (path : String) : List String :=
  walk (if path.startsWith "/" then [] else dir) (pathNames path)

/-- The text of the path from the root. -/
def pathText (names : List String) : String := "/" ++ "/".intercalate names

/-- A directory and those above it, up to the root. -/
def ancestors (dir : List String) : List (List String) :=
  (List.range (dir.length + 1)).map fun n => dir.take (dir.length - n)

end Narrowing.Text
