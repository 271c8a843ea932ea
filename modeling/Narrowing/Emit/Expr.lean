import Narrowing.Emit.Basic

/-!
# C expressions

An expression is printed with brackets around every operand that is not a single term.
-/

namespace Narrowing

/-- The C text of a constant. -/
def Constant.emit : Constant → String
  | int n => toString n
  | bool true => "true"
  | bool false => "false"
  | null => "NULL"

namespace Expr

/-- The expression takes brackets as an operand. -/
def needsBrackets : Expr → Bool
  | binary .. | convert .. | new .. | deref .. | is .. => true
  | _ => false

/-- The text of an expression as that of an operand. -/
def asOperand (x : Expr) (text : String) : String :=
  if x.needsBrackets then "(" ++ text ++ ")" else text

/-- A unary operator before the text of its operand; two minus signs are kept apart. -/
def prefixed (op : Operator) (x : String) : String :=
  if op = .neg ∧ x.toList.head? = some '-' then "- " ++ x else op.text ++ x

mutual

/-- The C text of an expression. -/
def emit (e : Emitter) : Expr → EmitM String
  | .const c => pure c.emit
  | .var n => e.variableName n
  | .unary op x =>
    if op.isUnary then do
      let t ← x.emit e
      return prefixed op (x.asOperand t)
    else throw (.binaryBeforeOperand op)
  | .binary op x y =>
    if op.isUnary then throw (.unaryBetweenOperands op)
    else do
      let s ← x.emit e
      let t ← y.emit e
      return x.asOperand s ++ " " ++ op.text ++ " " ++ y.asOperand t
  | .convert type x => do
    let name ← e.typeName type
    let t ← x.emit e
    return "(" ++ name ++ ") " ++ x.asOperand t
  | .deref x => do
    let t ← x.emit e
    return "*" ++ x.asOperand t
  | .field x name => do
    let t ← x.emit e
    return x.asOperand t ++ "." ++ name
  | .length x => do
    let t ← x.emit e
    return x.asOperand t ++ ".length"
  | .index x i => do
    let s ← x.emit e
    let t ← i.emit e
    return x.asOperand s ++ ".data[" ++ t ++ "]"
  | .array elems => do
    let ts ← emitAll e elems
    return "\x7b" ++ ", ".intercalate ts ++ "\x7d"
  | .fill value size => do
    let s ← value.emit e
    let t ← size.emit e
    return "arr_gen(" ++ s ++ ", " ++ t ++ ")"
  | .record fields => do
    let ts ← emitFields e fields
    return "\x7b" ++ ", ".intercalate ts ++ "\x7d"
  | .invoke name args => do
    let ts ← emitAll e args
    return name ++ "(" ++ ", ".intercalate ts ++ ")"
  | .indirect fn args => do
    let s ← fn.emit e
    let ts ← emitAll e args
    return fn.asOperand s ++ "(" ++ ", ".intercalate ts ++ ")"
  | .new x => do
    let t ← x.emit e
    return "new " ++ x.asOperand t
  | .lambda .. => do
    unsupported .lambda
    return ""
  | .quantifier .. => do
    unsupported .quantifier
    return ""
  | .is .. => do
    unsupported .typeTest
    return ""
  | .hole => throw .noExpression

/-- The C texts of some expressions. -/
def emitAll (e : Emitter) : List Expr → EmitM (List String)
  | [] => pure []
  | x :: xs => do
    let t ← x.emit e
    let ts ← emitAll e xs
    return t :: ts

/-- The C texts of the fields of a record. -/
def emitFields (e : Emitter) : List (String × Expr) → EmitM (List String)
  | [] => pure []
  | (name, x) :: fs => do
    let t ← x.emit e
    let ts ← emitFields e fs
    return ("." ++ name ++ " = " ++ t) :: ts

end

/-- A direct or indirect invocation. -/
def isCall : Expr → Bool
  | invoke .. | indirect .. => true
  | _ => false

/-- The name of the sort of expression where a call is expected. -/
def callKindName : Expr → String
  | hole => "<nil>"
  | x => "*wyil." ++ x.kindName

end Expr

end Narrowing
