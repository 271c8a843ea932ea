import Narrowing.Assembly.Reader
import Narrowing.Check
import Narrowing.Container.Body

/-!
# Reading containers

A container is read in three steps: the document is fitted to the schema, its entries become declarations, types before
functions, and the file of the declarations is checked.
-/

namespace Narrowing.Container

open Yaml

/-- The parts of an entry that hold bytecode. -/
inductive CodePart where
  | precondition (index : Nat)
  | code
  | invariant
  deriving DecidableEq, Repr

def CodePart.text : CodePart → String
  | precondition i => "precondition " ++ toString i
  | code => "code"
  | invariant => "invariant"

/-- What is wrong with a node that should hold bytecode. -/
inductive CodeFlaw where
  | notText
  | complaint (c : Assembly.Complaint)
  deriving DecidableEq, Repr

def CodeFlaw.message : CodeFlaw → String
  | notText => "expected bytecode text"
  | complaint c => c.message

/-- Why an entry is no declaration. -/
inductive EntryError where
  | type (e : Ty.ReadError)
  | variable (f : VariableFlaw)
  | returnType (e : Ty.ReadError)
  | code (part : CodePart) (line : Nat) (f : CodeFlaw)
  | body (e : BodyError)
  | fault (f : Fault)
  deriving DecidableEq, Repr

/-- The message for a flaw on a line. -/
def lineMessage (line : Nat) (message : String) : String := "line " ++ toString line ++ ": " ++ message

/-- What is wrong with an entry, for errors that have a message of their own. -/
def EntryError.message : EntryError → Option String
  | type e => some e.message
  | .variable f => some f.message
  | returnType e => some ("return type: " ++ e.message)
  | code part line f => some (part.text ++ ": " ++ lineMessage line f.message)
  | body (.flaw line f) => some ("body: " ++ lineMessage line f.message)
  | body (.schema _) => none
  | fault f => f.message

/-! ### Entries -/

/-- The bytecode in a node; none if there is no node or a null.  Complaints name lines of the container. -/
def readCode (part : CodePart) : Option Node → Except EntryError (Option Block)
  | none | some (.scalar _ .null _ _) => .ok none
  | some (.scalar line _ text isBlock) =>
    match Assembly.read text with
    | .ok b => .ok (some b)
    | .error (.fault f) => .error (.fault f)
    | .error (.complaint l c) => .error (.code part (l + line - (if isBlock then 0 else 1)) (.complaint c))
  | some n => .error (.code part n.line .notText)

/-- Variables with their types read. -/
def readVariables (vs : List VariableEntry) : Except EntryError (List Variable) :=
  (vs.mapM VariableEntry.resolve).mapError .variable

/-- The declaration of a type. -/
def TypeEntry.declare (t : TypeEntry) : Except EntryError TypeDecl := do
  let type ← (Ty.ofText t.type).mapError .type
  let locals ← readVariables t.locals
  return ⟨t.name, type, locals, ← readCode .invariant t.invariant⟩

/-- The declaration of a function. -/
def FunctionEntry.declare (d : Document) (f : FunctionEntry) : Except EntryError FunctionDecl := do
  let params ← readVariables f.params
  let locals ← readVariables f.locals
  let returns ← f.returns.mapM fun t => (Ty.ofText t).mapError .returnType
  let preconditions ← f.preconditions.zipIdx.mapM fun (n, i) => readCode (.precondition i) (some n)
  let code ← readCode .code f.code
  let body ←
    match f.body with
    | none => pure none
    | some n => some <$> (statements ⟨d, params ++ locals⟩ n).mapError .body
  return ⟨f.name, f.isMethod, params, returns, locals, preconditions, code, body⟩

/-! ### Files -/

/-- Why a text is no file. -/
inductive Error where
  | schema (e : SchemaError)
  | type (name : String) (e : EntryError)
  | function (name : String) (e : EntryError)
  | malformed (m : Malformed)

/-- The message for a file of the given name, for errors that have one. -/
def Error.message (file : String) : Error → Option String
  | schema _ => none
  | type name e => e.message.map fun m => file ++ ": type " ++ name ++ ": " ++ m
  | function name e => e.message.map fun m => file ++ ": function " ++ name ++ ": " ++ m
  | malformed m => some (file ++ ": " ++ m.message)

/-- The declarations of a document. -/
def declarations (d : Document) : Except Error (List Decl) := do
  let contents ← (Fitting.contents d d.root).result.mapError .schema
  let contents := contents.getD {}
  let types ← contents.types.mapM fun t => (t.declare).mapError (.type t.name)
  let functions ← contents.functions.mapM fun f => (f.declare d).mapError (.function f.name)
  return types.map .type ++ functions.map .function

/-- Read and check the container with the given name and text. -/
def read (name text : String) : Except Error File := do
  match Document.read? text with
  | none => throw (.schema .unreadable)
  | some none => return ⟨name, []⟩
  | some (some d) =>
    let file : File := ⟨name, ← declarations d⟩
    file.check.mapError .malformed
    return file

end Narrowing.Container
