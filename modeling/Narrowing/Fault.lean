import Narrowing.Bound
import Narrowing.Comparator
import Narrowing.Operator

/-!
# Faults

A fault is the use of an operation outside its domain: an interval with its ends the wrong way round, a slot that a
frame does not have, a jump to a label that no code carries.  Checked input causes hardly any; they are values so
that every operation stays total and it can be said exactly when one arises.
-/

namespace Narrowing

/-- Why an operation has no result. -/
inductive Fault where
  /-- The least of no bounds. -/
  | leastOfNone
  /-- The greatest of no bounds. -/
  | greatestOfNone
  /-- An interval whose lower end is above its upper end. -/
  | inverted (low high : Bound)
  /-- A word with too few bits (a signed one has at least its sign) or more than memory. -/
  | width
  /-- A branch on a number that names no comparison. -/
  | comparator (op : Comparator)
  /-- A slot outside the frame. -/
  | slot
  /-- A frame of a negative size. -/
  | frameSize
  /-- Frames of different sizes have no join. -/
  | frameSizes (left right : Nat)
  /-- An address at which no code stands. -/
  | address (offset : Int)
  /-- Entering a code that is not a loop. -/
  | notLoop (code : String)
  /-- A hole in a block has no slots and no effect. -/
  | hole
  /-- A hole in a block cannot be printed as assembly. -/
  | unprintable
  /-- A line of assembly with separators but no word. -/
  | wordless
  /-- A jump to a label of no code. -/
  | unresolved (label unit : String)
  /-- A selector needs a kind to select. -/
  | emptyTable
  /-- A variable the unit does not have. -/
  | noVariable (slot : Int)
  /-- A hole in a statement list. -/
  | noStatement
  /-- A hole in an expression. -/
  | noExpression
  /-- A call statement of something that is not a call. -/
  | notCall (expr : String)
  /-- A binary operator before a single operand. -/
  | binaryBeforeOperand (op : Operator)
  /-- A unary operator between two operands. -/
  | unaryBetweenOperands (op : Operator)
  /-- A merged list that still asks for its parent. -/
  | unresolvedInherit
  /-- A text of a negative length, or of one that memory has no room for. -/
  | textLength
  /-- A list or a mapping among keys that are looked up. -/
  | collectionKey
  deriving DecidableEq, Repr

namespace Fault

/-- What a fault says.  Some say nothing. -/
def message : Fault → Option String
  | leastOfNone => some "MinBound called with no arguments"
  | greatestOfNone => some "MaxBound called with no arguments"
  | inverted low high => some ("inverted range [" ++ low.text ++ ", " ++ high.text ++ "]")
  | width => none
  | comparator op => some ("unhandled comparator " ++ op.text)
  | slot => none
  | frameSize => none
  | frameSizes m n => some ("joining frames of length " ++ toString m ++ " and " ++ toString n)
  | address offset => some ("index " ++ toString offset ++ " out of range")
  | notLoop code => some ("Enter called on " ++ code)
  | hole => some "unhandled code <nil>"
  | unprintable => none
  | wordless => none
  | unresolved label unit => some ("unresolved label " ++ label ++ " in " ++ unit)
  | emptyTable => some "NewSelector called with empty table"
  | noVariable n => some ("variable " ++ toString n ++ " out of range")
  | noStatement => some "unhandled statement <nil>"
  | noExpression => some "unhandled expression <nil>"
  | notCall expr => some ("call statement of " ++ expr)
  | binaryBeforeOperand op => some ("binary operator " ++ op.text ++ " in unary expression")
  | unaryBetweenOperands op => some ("unary operator " ++ op.text ++ " in binary expression")
  | unresolvedInherit => some "unresolved \"inherit\""
  | textLength => none
  | collectionKey => none

end Fault

namespace Bound

/-- The least of some bounds. -/
def least (bs : List Bound) : Except Fault Bound :=
  match least? bs with
  | some b => .ok b
  | none => .error .leastOfNone

/-- The greatest of some bounds. -/
def greatest (bs : List Bound) : Except Fault Bound :=
  match greatest? bs with
  | some b => .ok b
  | none => .error .greatestOfNone

end Bound

end Narrowing
