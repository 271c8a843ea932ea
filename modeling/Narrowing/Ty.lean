import Narrowing.Interval
import Narrowing.Text.Numeral

/-!
# Types

The types of variables.  Besides the unbounded integers there are nominal types; one that is named like a machine
word, `i8` through `u64`, holds the integers of that word.
-/

namespace Narrowing

/-- A type. -/
inductive Ty where
  | int
  | bool
  | null
  | void
  | array (elem : Ty)
  | ref (elem : Ty)
  | record (fields : List (String × Ty))
  | nominal (name : String)
  deriving BEq, Repr, Inhabited

/-- A named, typed variable. -/
structure Variable where
  name : String
  type : Ty
  deriving BEq, Repr, Inhabited

namespace Ty

mutual

/-- The text of a type. -/
def text : Ty → String
  | int => "int"
  | bool => "bool"
  | null => "null"
  | void => "void"
  | array elem => elem.text ++ "[]"
  | ref elem => "&" ++ elem.text
  | record fields => "\x7b" ++ ", ".intercalate (fieldTexts fields) ++ "\x7d"
  | nominal name => name

/-- The texts of record fields. -/
def fieldTexts : List (String × Ty) → List String
  | [] => []
  | (name, type) :: rest => (type.text ++ " " ++ name) :: fieldTexts rest

end

/-- The width and signedness of a machine word type: `i` or `u` and one of four widths in decimal. -/
def wordOfName (name : String) : Option (Nat × Bool) :=
  match name.toList with
  | 'i' :: width => (widthOf width).map fun bits => (bits, true)
  | 'u' :: width => (widthOf width).map fun bits => (bits, false)
  | _ => none
where
  widthOf (width : List Char) : Option Nat :=
    match Text.readInt64 width with
    | some 8 => some 8
    | some 16 => some 16
    | some 32 => some 32
    | some 64 => some 64
    | _ => none

/-- The values of a type, if they are integers. -/
def range? : Ty → Option Interval
  | int => some .top
  | nominal name => (wordOfName name).map fun (bits, signed) => Interval.ofWidth bits signed
  | _ => none

/-- The values of a type are integers. -/
def isInteger : Ty → Bool
  | int => true
  | nominal name => (wordOfName name).isSome
  | _ => false

end Ty

end Narrowing
