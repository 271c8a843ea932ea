import Narrowing.Code
import Narrowing.Operator
import Narrowing.Ty

/-!
# Statement trees

The body of a function as statements and expressions, from which C is printed.  The range analysis works on the
bytecode of the same body instead.  Variables are slots of the unit.  A tree may have holes where no statement or
expression was supplied.
-/

namespace Narrowing

/-- An expression. -/
inductive Expr where
  | const (value : Constant)
  | var (slot : Slot)
  | unary (op : Operator) (x : Expr)
  | binary (op : Operator) (x y : Expr)
  | convert (type : Ty) (x : Expr)
  | deref (x : Expr)
  | field (x : Expr) (name : String)
  | length (x : Expr)
  | index (x i : Expr)
  | array (elems : List Expr)
  /-- An array of `size` copies of `value`. -/
  | fill (value size : Expr)
  | record (fields : List (String × Expr))
  | invoke (name : String) (args : List Expr)
  | indirect (fn : Expr) (args : List Expr)
  | new (x : Expr)
  | lambda (params : List Variable) (body : Expr)
  | quantifier (universal : Bool) (slot : Slot) (low high body : Expr)
  | is (x : Expr) (type : Ty)
  /-- No expression. -/
  | hole
  deriving BEq, Repr, Inhabited

/-- A statement. -/
inductive Stmt where
  | block (body : List Stmt)
  /-- Declare a variable; a hole stands for no initial value. -/
  | decl (slot : Slot) (init : Expr)
  /-- Give a variable another name. -/
  | declAlias (slot : Slot)
  | assign (lhs rhs : List Expr)
  | assert (cond : Expr)
  | assume (cond : Expr)
  | break
  | continue
  | debug (x : Expr)
  | doWhile (body : List Stmt) (cond : Expr)
  | fail
  | ifThen (cond : Expr) (yes : List Stmt)
  | ifElse (cond : Expr) (yes no : List Stmt)
  /-- A call for its effects. -/
  | call (x : Expr)
  | named (name : String) (body : List Stmt)
  | while (cond : Expr) (body : List Stmt)
  | ret (results : List Expr)
  | skip
  /-- Clauses with their values; one without values is the default. -/
  | switch (tag : Expr) (clauses : List (List Constant × List Stmt))
  /-- No statement. -/
  | hole
  deriving BEq, Repr, Inhabited

/-- The name of the sort of expression in diagnostics. -/
def Expr.kindName : Expr → String
  | const .. => "ConstExpr"
  | var .. => "VarExpr"
  | unary .. => "UnaryExpr"
  | binary .. => "BinaryExpr"
  | convert .. => "ConvertExpr"
  | deref .. => "DerefExpr"
  | field .. => "FieldExpr"
  | length .. => "LengthExpr"
  | index .. => "IndexExpr"
  | array .. => "ArrayLit"
  | fill .. => "ArrayGenExpr"
  | record .. => "RecordLit"
  | invoke .. => "InvokeExpr"
  | indirect .. => "IndirectInvokeExpr"
  | new .. => "NewExpr"
  | lambda .. => "LambdaExpr"
  | quantifier .. => "QuantifierExpr"
  | is .. => "IsExpr"
  | hole => "<nil>"

/-- The name of the sort of statement in diagnostics. -/
def Stmt.kindName : Stmt → String
  | block .. => "BlockStmt"
  | decl .. => "DeclStmt"
  | declAlias .. => "AliasStmt"
  | assign .. => "AssignStmt"
  | assert .. => "AssertStmt"
  | assume .. => "AssumeStmt"
  | .break => "BreakStmt"
  | .continue => "ContinueStmt"
  | debug .. => "DebugStmt"
  | doWhile .. => "DoWhileStmt"
  | fail => "FailStmt"
  | ifThen .. => "IfStmt"
  | ifElse .. => "IfStmt"
  | call .. => "CallStmt"
  | named .. => "NamedBlockStmt"
  | .while .. => "WhileStmt"
  | ret .. => "ReturnStmt"
  | skip => "SkipStmt"
  | switch .. => "SwitchStmt"
  | hole => "<nil>"

end Narrowing
