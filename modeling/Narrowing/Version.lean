/-!
# Versions

A release has a version for people and one for machines.
-/

namespace Narrowing

/-- The version of the program. -/
structure Version where
  human : String
  machine : String
  deriving DecidableEq, Repr

namespace Version

/-- A version under development. -/
def development : Version := ⟨"devel", "devel"⟩

instance : Inhabited Version := ⟨development⟩

/-- What the program says about its version. -/
def text (v : Version) (program : String) : String :=
  if v.human == development.human then program ++ " (no version)\n"
  else program ++ " " ++ v.human ++ " (" ++ v.machine ++ ")\n"

end Version

end Narrowing
