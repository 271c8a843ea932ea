import Narrowing.Tree

/-!
# Declarations

A file declares types and functions.  Each declaration is a unit with its own variable slots: the parameters of a
function come first and its locals follow; the invariant of a type finds the value it judges in slot 0.
-/

namespace Narrowing

/-- A function or method. -/
structure FunctionDecl where
  name : String
  isMethod : Bool := false
  params : List Variable := []
  returns : List Ty := []
  locals : List Variable := []
  /-- The bytecode of each precondition, run in turn before the body. -/
  preconditions : List (Option Block) := []
  /-- The bytecode of the body, if there is one. -/
  code : Option Block := none
  /-- The statements of the body, if there is one. -/
  body : Option (List Stmt) := none
  deriving Repr, Inhabited

/-- A named type with an optional invariant. -/
structure TypeDecl where
  name : String
  type : Ty
  locals : List Variable := []
  invariant : Option Block := none
  deriving Repr, Inhabited

/-- The variable in a slot. -/
def variableAt? (vars : List Variable) (n : Slot) : Option Variable :=
  if n < 0 then none else vars[n.toNat]?

namespace FunctionDecl

/-- The variables by slot. -/
def vars (f : FunctionDecl) : List Variable := f.params ++ f.locals

def numSlots (f : FunctionDecl) : Nat := f.vars.length

def lookup? (f : FunctionDecl) (n : Slot) : Option Variable := variableAt? f.vars n

end FunctionDecl

namespace TypeDecl

/-- The variables by slot. -/
def vars (t : TypeDecl) : List Variable := ⟨"$", t.type⟩ :: t.locals

def numSlots (t : TypeDecl) : Nat := t.vars.length

end TypeDecl

/-- A declaration. -/
inductive Decl where
  | function (f : FunctionDecl)
  | type (t : TypeDecl)
  deriving Repr, Inhabited

def Decl.name : Decl → String
  | function f => f.name
  | type t => t.name

/-- A named list of declarations. -/
structure File where
  name : String
  decls : List Decl
  deriving Repr, Inhabited

namespace File

def functions (f : File) : List FunctionDecl :=
  f.decls.filterMap fun
    | .function d => some d
    | .type _ => none

def types (f : File) : List TypeDecl :=
  f.decls.filterMap fun
    | .type d => some d
    | .function _ => none

end File

end Narrowing
