import Narrowing.Tree

/-!
# Visiting statement trees

The subtrees of a tree in the order they are written, each before its parts.  A predicate says of which subtrees the
parts are visited as well.  Holes are no subtrees.
-/

namespace Narrowing

/-- A statement or an expression inside a tree. -/
inductive Subtree where
  | stmt (s : Stmt)
  | expr (e : Expr)
  deriving BEq, Repr, Inhabited

namespace Subtree

def kindName : Subtree → String
  | stmt s => s.kindName
  | expr e => e.kindName

/-- The slot that a subtree mentions outside its parts. -/
def slot? : Subtree → Option Slot
  | stmt (.decl n _) => some n
  | stmt (.declAlias n) => some n
  | expr (.var n) => some n
  | expr (.quantifier _ n _ _ _) => some n
  | _ => none

/-- A subtree before its parts, or alone if it is not to be descended into. -/
def before (descend : Subtree → Bool) (n : Subtree) (parts : List Subtree) : List Subtree :=
  n :: if descend n then parts else []

end Subtree

mutual

/-- The subtrees of an expression. -/
def Expr.subtrees (descend : Subtree → Bool) : Expr → List Subtree
  | .hole => []
  | .const c => [.expr (.const c)]
  | .var n => [.expr (.var n)]
  | .unary op x => (Subtree.expr (.unary op x)).before descend (x.subtrees descend)
  | .binary op x y => (Subtree.expr (.binary op x y)).before descend (x.subtrees descend ++ y.subtrees descend)
  | .convert t x => (Subtree.expr (.convert t x)).before descend (x.subtrees descend)
  | .deref x => (Subtree.expr (.deref x)).before descend (x.subtrees descend)
  | .field x name => (Subtree.expr (.field x name)).before descend (x.subtrees descend)
  | .length x => (Subtree.expr (.length x)).before descend (x.subtrees descend)
  | .index x i => (Subtree.expr (.index x i)).before descend (x.subtrees descend ++ i.subtrees descend)
  | .array es => (Subtree.expr (.array es)).before descend (exprsSubtrees descend es)
  | .fill v n => (Subtree.expr (.fill v n)).before descend (v.subtrees descend ++ n.subtrees descend)
  | .record fs => (Subtree.expr (.record fs)).before descend (fieldsSubtrees descend fs)
  | .invoke name es => (Subtree.expr (.invoke name es)).before descend (exprsSubtrees descend es)
  | .indirect fn es => (Subtree.expr (.indirect fn es)).before descend (fn.subtrees descend ++ exprsSubtrees descend es)
  | .new x => (Subtree.expr (.new x)).before descend (x.subtrees descend)
  | .lambda ps body => (Subtree.expr (.lambda ps body)).before descend (body.subtrees descend)
  | .quantifier u n low high body =>
    (Subtree.expr (.quantifier u n low high body)).before descend
      (low.subtrees descend ++ high.subtrees descend ++ body.subtrees descend)
  | .is x t => (Subtree.expr (.is x t)).before descend (x.subtrees descend)

/-- The subtrees of some expressions. -/
def exprsSubtrees (descend : Subtree → Bool) : List Expr → List Subtree
  | [] => []
  | e :: es => e.subtrees descend ++ exprsSubtrees descend es

/-- The subtrees of the fields of a record. -/
def fieldsSubtrees (descend : Subtree → Bool) : List (String × Expr) → List Subtree
  | [] => []
  | (_, e) :: fs => e.subtrees descend ++ fieldsSubtrees descend fs

end

mutual

/-- The subtrees of a statement. -/
def Stmt.subtrees (descend : Subtree → Bool) : Stmt → List Subtree
  | .hole => []
  | .block body => (Subtree.stmt (.block body)).before descend (stmtsSubtrees descend body)
  | .decl n init => (Subtree.stmt (.decl n init)).before descend (init.subtrees descend)
  | .declAlias n => [.stmt (.declAlias n)]
  | .assign lhs rhs =>
    (Subtree.stmt (.assign lhs rhs)).before descend (exprsSubtrees descend lhs ++ exprsSubtrees descend rhs)
  | .assert e => (Subtree.stmt (.assert e)).before descend (e.subtrees descend)
  | .assume e => (Subtree.stmt (.assume e)).before descend (e.subtrees descend)
  | .break => [.stmt .break]
  | .continue => [.stmt .continue]
  | .debug e => (Subtree.stmt (.debug e)).before descend (e.subtrees descend)
  | .doWhile body e =>
    (Subtree.stmt (.doWhile body e)).before descend (stmtsSubtrees descend body ++ e.subtrees descend)
  | .fail => [.stmt .fail]
  | .ifThen e yes => (Subtree.stmt (.ifThen e yes)).before descend (e.subtrees descend ++ stmtsSubtrees descend yes)
  | .ifElse e yes no =>
    (Subtree.stmt (.ifElse e yes no)).before descend
      (e.subtrees descend ++ stmtsSubtrees descend yes ++ stmtsSubtrees descend no)
  | .call e => (Subtree.stmt (.call e)).before descend (e.subtrees descend)
  | .named name body => (Subtree.stmt (.named name body)).before descend (stmtsSubtrees descend body)
  | .while e body => (Subtree.stmt (.while e body)).before descend (e.subtrees descend ++ stmtsSubtrees descend body)
  | .ret es => (Subtree.stmt (.ret es)).before descend (exprsSubtrees descend es)
  | .skip => [.stmt .skip]
  | .switch e cs => (Subtree.stmt (.switch e cs)).before descend (e.subtrees descend ++ clausesSubtrees descend cs)

/-- The subtrees of a sequence of statements. -/
def stmtsSubtrees (descend : Subtree → Bool) : List Stmt → List Subtree
  | [] => []
  | s :: ss => s.subtrees descend ++ stmtsSubtrees descend ss

/-- The subtrees of the clauses of a switch. -/
def clausesSubtrees (descend : Subtree → Bool) : List (List Constant × List Stmt) → List Subtree
  | [] => []
  | (_, body) :: cs => stmtsSubtrees descend body ++ clausesSubtrees descend cs

end

end Narrowing
