/-!
# Operators

The unary and binary operators of expressions, as they are written in C.  As with comparators, a tree may carry a
number that names no operator.
-/

namespace Narrowing

/-- A unary or binary operator. -/
inductive Operator where
  | neg
  | not
  | invert
  | add
  | sub
  | mul
  | div
  | rem
  | eq
  | ne
  | lt
  | le
  | gt
  | ge
  | and
  | or
  | bitAnd
  | bitOr
  | bitXor
  | shl
  | shr
  /-- A number that names none of the operators. -/
  | unknown (code : Int)
  deriving DecidableEq, Repr

namespace Operator

instance : Inhabited Operator := ⟨neg⟩

/-- The operators, by number. -/
def known : List Operator :=
  [neg, not, invert, add, sub, mul, div, rem, eq, ne, lt, le, gt, ge, and, or, bitAnd, bitOr, bitXor, shl, shr]

/-- The operator with the given number. -/
def ofCode (n : Int) : Operator :=
  if n < 0 then unknown n else (known[n.toNat]?).getD (unknown n)

/-- The number of an operator. -/
def code : Operator → Int
  | unknown n => n
  | op => (known.findIdx (· == op) : Nat)

def text : Operator → String
  | neg => "-"
  | not => "!"
  | invert => "~"
  | add => "+"
  | sub => "-"
  | mul => "*"
  | div => "/"
  | rem => "%"
  | eq => "=="
  | ne => "!="
  | lt => "<"
  | le => "<="
  | gt => ">"
  | ge => ">="
  | and => "&&"
  | or => "||"
  | bitAnd => "&"
  | bitOr => "|"
  | bitXor => "^"
  | shl => "<<"
  | shr => ">>"
  | unknown n => "Operator(" ++ toString n ++ ")"

/-- Unary operators stand before their operand.  An unnamed operator is unary if its number is below those of the
named ones. -/
def isUnary : Operator → Bool
  | neg | not | invert => true
  | unknown n => decide (n < 0)
  | _ => false

end Operator

end Narrowing
