/-!
# Comparators

The comparison made by a conditional branch.  Bytecode may carry a number that names no comparison; such a branch
can be printed but not decided.
-/

namespace Narrowing

/-- The comparison of a conditional branch. -/
inductive Comparator where
  | eq
  | ne
  | lt
  | le
  | gt
  | ge
  /-- A number that names none of the six comparisons. -/
  | unknown (code : Int)
  deriving DecidableEq, Repr

namespace Comparator

instance : Inhabited Comparator := ⟨eq⟩

/-- The six comparisons, by number. -/
def known : List Comparator := [eq, ne, lt, le, gt, ge]

/-- The comparator with the given number. -/
def ofCode : Int → Comparator
  | 0 => eq
  | 1 => ne
  | 2 => lt
  | 3 => le
  | 4 => gt
  | 5 => ge
  | n => unknown n

/-- The number of a comparator. -/
def code : Comparator → Int
  | eq => 0
  | ne => 1
  | lt => 2
  | le => 3
  | gt => 4
  | ge => 5
  | unknown n => n

def text : Comparator → String
  | eq => "eq"
  | ne => "ne"
  | lt => "lt"
  | le => "le"
  | gt => "gt"
  | ge => "ge"
  | unknown n => "Comparator(" ++ toString n ++ ")"

/-- The comparator with the given mnemonic. -/
def ofText? (s : String) : Option Comparator := known.find? (·.text == s)

end Comparator

end Narrowing
