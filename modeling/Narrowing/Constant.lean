/-!
# Constants
-/

namespace Narrowing

/-- A literal value. -/
inductive Constant where
  | int (n : Int)
  | bool (b : Bool)
  | null
  deriving DecidableEq, Repr, Inhabited

namespace Constant

def text : Constant → String
  | int n => toString n
  | bool true => "true"
  | bool false => "false"
  | null => "null"

/-- The integer of an integer constant. -/
def toInt? : Constant → Option Int
  | int n => some n
  | _ => none

end Constant

end Narrowing
