import Narrowing.Comparator
import Narrowing.Constant
import Narrowing.Fault

/-!
# Codes

A code is one instruction of bytecode, and a block is a sequence of codes.  A loop code owns a block, so the codes of
a unit form a tree.  Control transfers name their destination by a label.
-/

namespace Narrowing

/-- A variable slot as codes name it; `noSlot` stands for an absent operand or target. -/
abbrev Slot := Int

/-- The absent slot. -/
def noSlot : Slot := -1

/-- The operations that compute a value from operand slots. -/
inductive Mnemonic where
  | invoke
  | indirectInvoke
  | invert
  | lambda
  | deref
  | newObject
  | setOp
  | listOp
  | binOp
  | unOp
  | convert
  | newList
  | newRecord
  | newSet
  | newMap
  | newTuple
  | fieldLoad
  | tupleLoad
  | indexOf
  | lengthOf
  | subList
  | update
  deriving DecidableEq, Repr, Inhabited

namespace Mnemonic

def all : List Mnemonic :=
  [invoke, indirectInvoke, invert, lambda, deref, newObject, setOp, listOp, binOp, unOp, convert, newList, newRecord,
    newSet, newMap, newTuple, fieldLoad, tupleLoad, indexOf, lengthOf, subList, update]

def text : Mnemonic → String
  | invoke => "invoke"
  | indirectInvoke => "indirectinvoke"
  | invert => "invert"
  | lambda => "lambda"
  | deref => "deref"
  | newObject => "newobject"
  | setOp => "setop"
  | listOp => "listop"
  | binOp => "binop"
  | unOp => "unop"
  | convert => "convert"
  | newList => "newlist"
  | newRecord => "newrecord"
  | newSet => "newset"
  | newMap => "newmap"
  | newTuple => "newtuple"
  | fieldLoad => "fieldload"
  | tupleLoad => "tupleload"
  | indexOf => "indexof"
  | lengthOf => "lengthof"
  | subList => "sublist"
  | update => "update"

/-- The operation with the given mnemonic. -/
def ofText? (s : String) : Option Mnemonic := all.find? (·.text == s)

/-- Loads and updates of parts of a value.  The range analysis does not follow them. -/
def isAccess : Mnemonic → Bool
  | fieldLoad | tupleLoad | indexOf | lengthOf | subList | update => true
  | _ => false

/-- The name of the operation in diagnostics. -/
def kindName : Mnemonic → String
  | invoke => "Invoke"
  | indirectInvoke => "IndirectInvoke"
  | invert => "Invert"
  | lambda => "Lambda"
  | deref => "Dereference"
  | newObject => "NewObject"
  | setOp => "SetOperator"
  | listOp => "ListOperator"
  | binOp => "BinaryOperator"
  | unOp => "UnaryOperator"
  | convert => "Convert"
  | newList => "NewList"
  | newRecord => "NewRecord"
  | newSet => "NewSet"
  | newMap => "NewMap"
  | newTuple => "NewTuple"
  | fieldLoad => "FieldLoad"
  | tupleLoad => "TupleLoad"
  | indexOf => "IndexOf"
  | lengthOf => "LengthOf"
  | subList => "SubList"
  | update => "Update"

end Mnemonic

/-- One arm of a switch: the value it is for and the label it goes to. -/
structure Arm where
  value : Constant
  target : String
  deriving DecidableEq, Repr, Inhabited

/-- One instruction. -/
inductive Code where
  /-- Load a constant. -/
  | const (target : Slot) (value : Constant)
  /-- Copy a slot. -/
  | assign (target operand : Slot)
  | goto (target : String)
  /-- Go to the target if the comparison holds, and on to the next code otherwise. -/
  | branch (left : Slot) (op : Comparator) (right : Slot) (target : String)
  /-- Go to the first arm whose value the operand has, or to the default. -/
  | switch (operand : Slot) (arms : List Arm) (default : String)
  | label (name : String)
  | nop
  | fail
  | debug (operand : Slot)
  | ret (operands : List Slot)
  /-- Run the body again and again; control leaves it by a jump only. -/
  | loop (body : List Code)
  /-- A loop that owns no block at all. -/
  | bareLoop
  /-- Compute a value; the name `aux` is that of a callee, field or operator. -/
  | compute (mnemonic : Mnemonic) (target : Slot) (operands : List Slot) (aux : String)
  /-- A place in a block at which no instruction stands. -/
  | hole
  deriving BEq, Repr, Inhabited

/-- A sequence of codes. -/
abbrev Block := List Code

/-! ### Text -/

/-- A slot as assembly writes it. -/
def slotText (n : Slot) : String := if n = noSlot then "_" else "%" ++ toString n

def slotTexts (ns : List Slot) : String := ", ".intercalate (ns.map slotText)

namespace Code

/-- The text of a code, without the body of a loop. -/
def text : Code → String
  | const t v => "const " ++ slotText t ++ " = " ++ v.text
  | assign t s => "assign " ++ slotText t ++ " = " ++ slotText s
  | goto l => "goto " ++ l
  | branch a op b l => "if " ++ slotText a ++ " " ++ op.text ++ " " ++ slotText b ++ " goto " ++ l
  | switch a arms d =>
    "switch " ++ slotText a ++ String.join (arms.map fun arm => " " ++ arm.value.text ++ ":" ++ arm.target) ++
      " default:" ++ d
  | label name => name ++ ":"
  | nop => "nop"
  | fail => "fail"
  | debug a => "debug " ++ slotText a
  | ret [] => "return"
  | ret (a :: as) => "return " ++ slotTexts (a :: as)
  | loop _ => "loop"
  | bareLoop => "loop"
  | compute m t as aux =>
    m.text ++ (if aux.isEmpty then "" else "." ++ aux) ++ " " ++ slotText t ++
      (if as.isEmpty then "" else " = " ++ slotTexts as)
  | hole => "%!s(<nil>)"

/-- The name of the sort of code in diagnostics. -/
def kindName : Code → String
  | const .. => "*wyil.Const"
  | assign .. => "*wyil.Assign"
  | goto .. => "*wyil.Goto"
  | branch .. => "*wyil.If"
  | switch .. => "*wyil.Switch"
  | label .. => "*wyil.Label"
  | nop => "*wyil.Nop"
  | fail => "*wyil.Fail"
  | debug .. => "*wyil.Debug"
  | ret .. => "*wyil.Return"
  | loop .. => "*wyil.Loop"
  | bareLoop => "*wyil.Loop"
  | compute m .. => "*wyil." ++ m.kindName
  | hole => "<nil>"

/-! ### Slots and targets -/

/-- The slots a code writes and the slots it reads. -/
structure Slots where
  defs : List Slot
  uses : List Slot
  deriving DecidableEq, Repr

/-- The slots a code names, without absent ones.  A hole has none to name. -/
def slots : Code → Except Fault Slots
  | const t _ => .ok ⟨present [t], []⟩
  | assign t s => .ok ⟨present [t], present [s]⟩
  | branch a _ b _ => .ok ⟨[], present [a, b]⟩
  | switch a _ _ => .ok ⟨[], present [a]⟩
  | debug a => .ok ⟨[], present [a]⟩
  | ret as => .ok ⟨[], present as⟩
  | compute _ t as _ => .ok ⟨present [t], present as⟩
  | goto _ | label _ | nop | fail | loop _ | bareLoop => .ok ⟨[], []⟩
  | hole => .error .hole
where
  present (ns : List Slot) : List Slot := ns.filter (· != noSlot)

/-- The labels a code may go to, in the order it names them. -/
def targets : Code → List String
  | goto l => [l]
  | branch _ _ _ l => [l]
  | switch _ arms d => arms.map Arm.target ++ [d]
  | _ => []

/-- The label a code carries. -/
def labelName? : Code → Option String
  | label name => some name
  | _ => none

end Code

end Narrowing
