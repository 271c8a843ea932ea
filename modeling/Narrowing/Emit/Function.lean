import Narrowing.Emit.Stmt

/-!
# C functions

A function is printed as its prototype and body; on request its program points come first, each in a comment with the
kinds of the variables there.
-/

namespace Narrowing

/-- How output is laid out. -/
structure Layout where
  /-- The header that the output includes. -/
  header : String := ""
  /-- The text of one level of indentation. -/
  indent : String := ""
  /-- Show the program points of every function. -/
  verbose : Bool := false
  deriving DecidableEq, Repr

/-- The layout with what it leaves empty filled in. -/
def Layout.filled (l : Layout) : Layout :=
  { l with
    header := if l.header.isEmpty then "whiley.h" else l.header
    indent := if l.indent.isEmpty then "    " else l.indent }

/-- A function with a construct that has no C counterpart. -/
structure Unsupported where
  unit : String
  construct : Construct
  deriving BEq, Repr

def Unsupported.message (u : Unsupported) : String := u.unit ++ ": unsupported construct: " ++ u.construct.text

/-- Why a function is not printed. -/
inductive EmitError where
  | unsupported (u : Unsupported)
  | fault (f : Fault)
  deriving BEq, Repr

namespace Emitter

/-- The kinds that the intervals of a frame select, variable by variable. -/
def frameKinds (e : Emitter) (f : Frame) : String :=
  "\x7b" ++ ", ".intercalate (f.defined.map fun (n, r) =>
    let v := (e.decl.lookup? n).getD ⟨"", .void⟩
    v.name ++ ": " ++ ((e.selector.selectFor r v.type).map Kind.name).getD "?") ++ "\x7d"

/-- One comment for each program point: its number, the kinds there and its code. -/
def pointComments (e : Emitter) : String :=
  match e.result with
  | none => ""
  | some r =>
    String.join (r.entries.zipIdx.map fun ((p, frame), n) =>
      "// " ++ Text.padLeft 3 ("#" ++ toString n) ++ " " ++
        Text.padRight 8 ((frame.map e.frameKinds).getD "-") ++ " " ++ p.code.text ++ "\n")

/-- The C return type. -/
def returnType (e : Emitter) : EmitM String :=
  match e.decl.returns with
  | [] => pure "void"
  | [t] => e.typeName t
  | _ => do
    unsupported .multipleReturns
    return ""

/-- The C parameters, the first of which is in the given slot. -/
def parameters (e : Emitter) (n : Nat) : List Variable → EmitM (List String)
  | [] => pure []
  | v :: vs => do
    let type ← e.variableType n
    let more ← e.parameters (n + 1) vs
    return (type ++ " " ++ v.name) :: more

/-- The text of the function. -/
def emitFunction (e : Emitter) (layout : Layout) : EmitM String := do
  let comments := if layout.verbose then e.pointComments else ""
  let type ← e.returnType
  let params ← e.parameters 0 e.decl.params
  let head := comments ++ type ++ " " ++ e.decl.name ++ "(" ++ ", ".intercalate params ++ ")"
  match e.decl.body with
  | none => return head ++ ";\n"
  | some body =>
    let ls ← emitBlock e 1 body
    return head ++ " \x7b\n" ++ String.join (ls.map (CLine.render layout.indent)) ++ "\x7d\n"

end Emitter

/-- The C text of a function.  Without a result of the analysis, integers get the widest kind that their declaration
allows. -/
def FunctionDecl.emit (f : FunctionDecl) (result : Option AnalysisResult) (selector : Selector) (layout : Layout) :
    Except EmitError String :=
  match (Emitter.emitFunction ⟨f, result, selector⟩ layout.filled).run none with
  | .error e => .error (.fault e)
  | .ok (_, some c) => .error (.unsupported ⟨f.name, c⟩)
  | .ok (text, none) => .ok text

end Narrowing
