import Narrowing.Emit.Expr

/-!
# C statements

A statement is printed as lines with a depth each; how far a level of depth is indented is decided later.
-/

namespace Narrowing

/-- A line of C and how deep it stands. -/
structure CLine where
  depth : Nat
  text : String
  deriving DecidableEq, Repr

/-- The line with its indentation. -/
def CLine.render (indent : String) (l : CLine) : String :=
  String.join (List.replicate l.depth indent) ++ l.text ++ "\n"

/-- A construct without a C counterpart was met. -/
def isSpoilt : EmitM Bool := do return (← get).isSome

/-- The lines of an assignment.  C assigns one value to one target. -/
def emitAssign (e : Emitter) (depth : Nat) (lhs rhs : List Expr) : EmitM (List CLine) :=
  match lhs, rhs with
  | [], [y] => do return [⟨depth, (← y.emit e) ++ ";"⟩]
  | [x], [y] => do
    let s ← x.emit e
    let t ← y.emit e
    return [⟨depth, s ++ " = " ++ t ++ ";"⟩]
  | _, _ => do
    unsupported (.assignment rhs.length lhs.length)
    return []

/-- The line that starts a clause of a switch. -/
def clauseHead (values : List Constant) : String :=
  match values with
  | [] => "default:"
  | _ => " ".intercalate (values.map fun v => "case " ++ v.emit ++ ":")

mutual

/-- The lines of a statement. -/
def Stmt.emit (e : Emitter) (depth : Nat) : Stmt → EmitM (List CLine)
  | .block body => do
    let ls ← emitBlock e (depth + 1) body
    return ⟨depth, "\x7b"⟩ :: ls ++ [⟨depth, "\x7d"⟩]
  | .decl n init => do
    let type ← e.variableType n
    let name ← e.variableName n
    match init with
    | .hole => return [⟨depth, type ++ " " ++ name ++ ";"⟩]
    | x => return [⟨depth, type ++ " " ++ name ++ " = " ++ (← x.emit e) ++ ";"⟩]
  | .declAlias n => do
    let type ← e.variableType n
    let name ← e.variableName n
    return [⟨depth, "// alias " ++ type ++ " " ++ name⟩]
  | .assign lhs rhs => emitAssign e depth lhs rhs
  | .assert x => do return [⟨depth, "assert(" ++ (← x.emit e) ++ ");"⟩]
  | .assume x => do return [⟨depth, "assume(" ++ (← x.emit e) ++ ");"⟩]
  | .break => pure [⟨depth, "break;"⟩]
  | .continue => pure [⟨depth, "continue;"⟩]
  | .debug _ => pure []
  | .doWhile body x => do
    let ls ← emitBlock e (depth + 1) body
    let t ← x.emit e
    return ⟨depth, "do \x7b"⟩ :: ls ++ [⟨depth, "\x7d while(" ++ t ++ ");"⟩]
  | .fail => pure [⟨depth, "fail();"⟩]
  | .ifThen x yes => do
    let t ← x.emit e
    let ls ← emitBlock e (depth + 1) yes
    return ⟨depth, "if(" ++ t ++ ") \x7b"⟩ :: ls ++ [⟨depth, "\x7d"⟩]
  | .ifElse x yes no => do
    let t ← x.emit e
    let ls ← emitBlock e (depth + 1) yes
    let ms ← emitBlock e (depth + 1) no
    return ⟨depth, "if(" ++ t ++ ") \x7b"⟩ :: ls ++ ⟨depth, "\x7d else \x7b"⟩ :: ms ++ [⟨depth, "\x7d"⟩]
  | .call x =>
    if x.isCall then do return [⟨depth, (← x.emit e) ++ ";"⟩] else throw (.notCall x.callKindName)
  | .named name body => do
    let ls ← emitBlock e (depth + 1) body
    return ⟨depth, name ++ ": \x7b"⟩ :: ls ++ [⟨depth, "\x7d"⟩]
  | .while x body => do
    let t ← x.emit e
    let ls ← emitBlock e (depth + 1) body
    return ⟨depth, "while(" ++ t ++ ") \x7b"⟩ :: ls ++ [⟨depth, "\x7d"⟩]
  | .ret [] => pure [⟨depth, "return;"⟩]
  | .ret [x] => do return [⟨depth, "return " ++ (← x.emit e) ++ ";"⟩]
  | .ret (_ :: _ :: _) => do
    unsupported .returnOfMany
    return []
  | .skip => pure [⟨depth, "// skip"⟩]
  | .switch x clauses => do
    let t ← x.emit e
    let ls ← emitClauses e (depth + 1) clauses
    return ⟨depth, "switch(" ++ t ++ ") \x7b"⟩ :: ls ++ [⟨depth, "\x7d"⟩]
  | .hole => throw .noStatement

/-- The lines of a sequence of statements.  Behind a spoilt statement nothing more is printed. -/
def emitBlock (e : Emitter) (depth : Nat) : List Stmt → EmitM (List CLine)
  | [] => pure []
  | s :: ss => do
    let ls ← s.emit e depth
    if ← isSpoilt then return ls
    else
      let ms ← emitBlock e depth ss
      return ls ++ ms

/-- The lines of the clauses of a switch, each ended by a break. -/
def emitClauses (e : Emitter) (depth : Nat) : List (List Constant × List Stmt) → EmitM (List CLine)
  | [] => pure []
  | (values, body) :: cs => do
    let ls ← emitBlock e (depth + 1) body
    let ms ← emitClauses e depth cs
    return ⟨depth, clauseHead values⟩ :: ls ++ ⟨depth + 1, "break;"⟩ :: ms

end

end Narrowing
