import Narrowing.Container.Schema
import Narrowing.Decl
import Narrowing.Text.Name
import Narrowing.Text.Quoted
import Narrowing.Ty.Reader

/-!
# Bodies in containers

The body of a function is a list of statements.  A statement is a word, or a mapping with one key that names its form;
so is an expression, where a string is a variable and any other scalar a constant.

The parts of a node come with a proof that they are smaller, so that the reading of statements and expressions, which
call each other, comes to an end.
-/

namespace Narrowing.Container

open Yaml

/-! ### Variables -/

/-- What is wrong with a variable. -/
inductive VariableFlaw where
  | name (name : String)
  | type (name : String) (error : Ty.ReadError)
  deriving DecidableEq, Repr

def VariableFlaw.message : VariableFlaw → String
  | name n => "invalid variable name " ++ Text.quote n
  | type n e => "variable " ++ n ++ ": " ++ e.message

/-- A variable with its type read. -/
def VariableEntry.resolve (v : VariableEntry) : Except VariableFlaw Variable :=
  if !Text.isName v.name then .error (.name v.name)
  else
    match Ty.ofText v.type with
    | .ok t => .ok ⟨v.name, t⟩
    | .error e => .error (.type v.name e)

/-! ### Errors -/

/-- What is wrong with a node of a body. -/
inductive BodyFlaw where
  | notSingle
  | notMapping
  | unknownField (key : String)
  | missingField (key : String)
  | notStatements
  | unknownStatement (key : String)
  | notCall
  | blockName (name : String)
  | notClauses
  | notValues
  | notVariable
  | undeclared (name : String)
  | notPair
  | notConstant
  | invalidInteger (text : String)
  | invalidBoolean (text : String)
  | constantTag (text : String)
  | type (error : Ty.ReadError)
  | notFields
  | parameter (flaw : VariableFlaw)
  | unknownExpression (key : String)
  deriving DecidableEq, Repr

def BodyFlaw.message : BodyFlaw → String
  | notSingle => "expected a mapping with a single key"
  | notMapping => "expected a mapping"
  | unknownField k => "unknown field " ++ Text.quote k
  | missingField k => "missing field " ++ Text.quote k
  | notStatements => "expected a list of statements"
  | unknownStatement k => "unknown statement " ++ Text.quote k
  | notCall => "call of a non-call expression"
  | blockName n => "invalid block name " ++ Text.quote n
  | notClauses => "expected a list of cases"
  | notValues => "expected a list of values"
  | notVariable => "expected a variable name"
  | undeclared n => "undeclared variable " ++ n
  | notPair => "expected a list of two operands"
  | notConstant => "expected a constant"
  | invalidInteger s => "invalid integer " ++ Text.quote s
  | invalidBoolean s => "invalid boolean " ++ Text.quote s
  | constantTag s => "expected a constant, got " ++ Text.quote s
  | type e => e.message
  | notFields => "expected a mapping of fields"
  | parameter f => f.message
  | unknownExpression k => "unknown expression " ++ Text.quote k

/-- Why a node is no body. -/
inductive BodyError where
  | flaw (line : Nat) (f : BodyFlaw)
  /-- The parameters of a lambda do not fit the schema. -/
  | schema (e : SchemaError)
  deriving DecidableEq, Repr

/-- Complain about a node. -/
def complain {α : Type} (n : Node) (f : BodyFlaw) : Except BodyError α := .error (.flaw n.line f)

/-! ### Parts of nodes -/

/-- A part of something bigger. -/
abbrev Part {α : Type} [SizeOf α] (whole : α) := { n : Node // sizeOf n < sizeOf whole }

/-- The key and the value of a mapping with one entry. -/
def single (n : Node) : Except BodyError (String × Part n) :=
  match n with
  | .mapping _ [(k, v)] => .ok (k.text, ⟨v, by simp; omega⟩)
  | n => complain n .notSingle

/-- The entries of a mapping whose keys are among those allowed. -/
def fields (n : Node) (allowed : List String) :
    Except BodyError { es : List (Node × Node) // sizeOf es < sizeOf n } :=
  match n with
  | .mapping _ es =>
    match es.find? fun e => !allowed.contains e.1.text with
    | some e => complain e.1 (.unknownField e.1.text)
    | none => .ok ⟨es, by rw [Node.mapping.sizeOf_spec]; omega⟩
  | n => complain n .notMapping

/-- The value of a key.  Of several entries with the key, the last one counts. -/
def fieldAt? (key : String) : (es : List (Node × Node)) → Option (Part es)
  | [] => none
  | (k, v) :: es =>
    match fieldAt? key es with
    | some ⟨x, h⟩ => some ⟨x, by simp; omega⟩
    | none => if k.text == key then some ⟨v, by simp; omega⟩ else none

/-- The value of a key that a mapping must have. -/
def required (n : Node) (es : List (Node × Node)) (key : String) : Except BodyError (Part es) :=
  match fieldAt? key es with
  | some x => .ok x
  | none => complain n (.missingField key)

/-- The items of a list of two. -/
def two (n : Node) : Except BodyError (Part n × Part n) :=
  match n with
  | .sequence _ [x, y] => .ok (⟨x, by simp; omega⟩, ⟨y, by simp; omega⟩)
  | n => complain n .notPair

theorem sizeOf_value_lt {es : List (Node × Node)} {e : Node × Node} (h : e ∈ es) : sizeOf e.2 < sizeOf es := by
  have := List.sizeOf_lt_of_mem h
  obtain ⟨k, v⟩ := e
  simp at this ⊢
  omega

/-! ### Leaves -/

/-- The slot of a variable; of several variables with the name, the first one. -/
def slotOf (vars : List Variable) (n : Node) : Except BodyError Slot :=
  match n with
  | .scalar _ .str name _ =>
    match vars.findIdx? fun v => v.name == name with
    | some i => .ok i
    | none => complain n (.undeclared name)
  | n => complain n .notVariable

/-- The constant a scalar stands for, by its tag. -/
def constantOf (n : Node) : Except BodyError Constant :=
  match n with
  | .scalar _ .int text _ =>
    match readNumeral text.toList with
    | some v => .ok (.int v)
    | none => complain n (.invalidInteger text)
  | .scalar _ .bool text _ =>
    if Tag.bool.fits text then .ok (.bool (["true", "True", "TRUE"].contains text))
    else complain n (.invalidBoolean text)
  | .scalar _ .null _ _ => .ok .null
  | .scalar _ _ text _ => complain n (.constantTag text)
  | n => complain n .notConstant

/-- The parameters of a lambda. -/
def parametersOf (d : Document) (whole : Node) (n : Option Node) : Except BodyError (List Variable) :=
  let entries : Except BodyError (List VariableEntry) :=
    match n with
    | none => .ok []
    | some n =>
      match (Fitting.items (Fitting.variableEntry false) d n).result with
      | .ok vs => .ok (vs.getD [])
      | .error e => .error (.schema e)
  match entries with
  | .error e => .error e
  | .ok vs =>
    match vs.mapM VariableEntry.resolve with
    | .ok vars => .ok vars
    | .error f => complain whole (.parameter f)

/-- The binary operators by their keys. -/
def binaryOperators : List (String × Operator) :=
  [("add", .add), ("sub", .sub), ("mul", .mul), ("div", .div), ("rem", .rem), ("eq", .eq), ("ne", .ne), ("lt", .lt),
    ("le", .le), ("gt", .gt), ("ge", .ge), ("and", .and), ("or", .or), ("band", .bitAnd), ("bor", .bitOr),
    ("xor", .bitXor), ("shl", .shl), ("shr", .shr)]

/-- The unary operators by their keys. -/
def unaryOperators : List (String × Operator) := [("neg", .neg), ("not", .not), ("invert", .invert)]

/-- What the readers of a body know: the document, and the variables of the function by slot. -/
structure Scope where
  document : Document
  vars : List Variable

/-! ### Expressions -/

mutual

/-- An expression. -/
def expr (s : Scope) (n : Node) : Except BodyError Expr := do
  match n with
  | .scalar _ .str _ _ => return .var (← slotOf s.vars n)
  | .scalar .. => return .const (← constantOf n)
  | n =>
    let (key, ⟨v, _⟩) ← single n
    match binaryOperators.lookup key, unaryOperators.lookup key with
    | some op, _ =>
      let (⟨x, _⟩, ⟨y, _⟩) ← two v
      return .binary op (← expr s x) (← expr s y)
    | none, some op => return .unary op (← expr s v)
    | none, none =>
      match key with
      | "deref" => return .deref (← expr s v)
      | "len" => return .length (← expr s v)
      | "new" => return .new (← expr s v)
      | "convert" =>
        let (type, x) ← typed s v
        return .convert type x
      | "is" =>
        let (type, x) ← typed s v
        return .is x type
      | "field" =>
        let ⟨es, _⟩ ← fields v ["x", "name"]
        let ⟨x, _⟩ ← required v es "x"
        let x ← expr s x
        let ⟨name, _⟩ ← required v es "name"
        return .field x name.text
      | "index" =>
        let (⟨x, _⟩, ⟨i, _⟩) ← two v
        return .index (← expr s x) (← expr s i)
      | "array" => return .array (← exprs s v)
      | "arraygen" =>
        let (⟨x, _⟩, ⟨size, _⟩) ← two v
        return .fill (← expr s x) (← expr s size)
      | "record" => return .record (← fieldValues s v)
      | "invoke" =>
        let ⟨es, _⟩ ← fields v ["name", "args"]
        let ⟨name, _⟩ ← required v es "name"
        match fieldAt? "args" es with
        | some ⟨args, _⟩ => return .invoke name.text (← exprs s args)
        | none => return .invoke name.text []
      | "indirect" =>
        let ⟨es, _⟩ ← fields v ["fn", "args"]
        let ⟨fn, _⟩ ← required v es "fn"
        let fn ← expr s fn
        match fieldAt? "args" es with
        | some ⟨args, _⟩ => return .indirect fn (← exprs s args)
        | none => return .indirect fn []
      | "lambda" =>
        let ⟨es, _⟩ ← fields v ["params"]
        return .lambda (← parametersOf s.document v ((fieldAt? "params" es).map (·.1))) .hole
      | "all" => quantifier s true v
      | "some" => quantifier s false v
      | key => complain n (.unknownExpression key)
termination_by (sizeOf n, 0)

/-- The fields of a record with their values, in order. -/
def fieldValues (s : Scope) (v : Node) : Except BodyError (List (String × Expr)) :=
  match v with
  | .mapping _ es =>
    es.attach.mapM fun ⟨e, h⟩ =>
      have := sizeOf_value_lt h
      (expr s e.2).map fun x => (e.1.text, x)
  | v => complain v .notFields
termination_by (sizeOf v, 0)

/-- A quantifier over a variable and its bounds. -/
def quantifier (s : Scope) (isUniversal : Bool) (v : Node) : Except BodyError Expr := do
  let ⟨es, _⟩ ← fields v ["var", "low", "high", "body"]
  let ⟨name, _⟩ ← required v es "var"
  let slot ← slotOf s.vars name
  let ⟨low, _⟩ ← required v es "low"
  let low ← expr s low
  let ⟨high, _⟩ ← required v es "high"
  let high ← expr s high
  let ⟨body, _⟩ ← required v es "body"
  return .quantifier isUniversal slot low high (← expr s body)
termination_by (sizeOf v, 0)

/-- A type and an expression. -/
def typed (s : Scope) (v : Node) : Except BodyError (Ty × Expr) := do
  let ⟨es, _⟩ ← fields v ["type", "x"]
  let ⟨t, _⟩ ← required v es "type"
  match Ty.ofText t.text with
  | .error e => complain t (.type e)
  | .ok type =>
    let ⟨x, _⟩ ← required v es "x"
    return (type, ← expr s x)
termination_by (sizeOf v, 0)

/-- A list of expressions; one expression is a list of its own, and null is the empty list. -/
def exprs (s : Scope) (n : Node) : Except BodyError (List Expr) :=
  match n with
  | .scalar _ .null _ _ => .ok []
  | .sequence _ items =>
    items.attach.mapM fun ⟨x, h⟩ =>
      have := List.sizeOf_lt_of_mem h
      expr s x
  | n => (expr s n).map ([·])
termination_by (sizeOf n, 1)

end

/-! ### Statements -/

/-- The statements that are single words. -/
def wordStatement? (word : String) : Option Stmt :=
  match word with
  | "break" => some .break
  | "continue" => some .continue
  | "fail" => some .fail
  | "skip" => some .skip
  | "return" => some (.ret [])
  | _ => none

/-- A required expression. -/
def exprAt (s : Scope) (n : Node) (es : List (Node × Node)) (key : String) : Except BodyError Expr := do
  expr s (← required n es key).1

/-- The values of a clause. -/
def clauseValues (es : List (Node × Node)) : Except BodyError (List Constant) :=
  match fieldAt? "values" es with
  | none => .ok []
  | some ⟨.sequence _ items, _⟩ => items.mapM constantOf
  | some ⟨n, _⟩ => complain n .notValues

mutual

/-- A list of statements; null is the empty list. -/
def statements (s : Scope) (n : Node) : Except BodyError (List Stmt) :=
  match n with
  | .scalar _ .null _ _ => .ok []
  | .sequence _ items =>
    items.attach.mapM fun ⟨x, h⟩ =>
      have := List.sizeOf_lt_of_mem h
      statement s x
  | n => complain n .notStatements
termination_by sizeOf n

/-- A statement. -/
def statement (s : Scope) (n : Node) : Except BodyError Stmt := do
  match n with
  | .scalar _ _ word _ =>
    match wordStatement? word with
    | some stmt => return stmt
    | none => complain n (.unknownStatement word)
  | n =>
    let (key, ⟨v, _⟩) ← single n
    match key with
    | "decl" =>
      let ⟨es, _⟩ ← fields v ["var", "init"]
      let ⟨name, _⟩ ← required v es "var"
      let slot ← slotOf s.vars name
      match fieldAt? "init" es with
      | some ⟨x, _⟩ => return .decl slot (← expr s x)
      | none => return .decl slot .hole
    | "alias" => return .declAlias (← slotOf s.vars v)
    | "assign" =>
      let ⟨es, _⟩ ← fields v ["lhs", "rhs"]
      let lhs ←
        match fieldAt? "lhs" es with
        | some ⟨x, _⟩ => exprs s x
        | none => pure []
      let ⟨rhs, _⟩ ← required v es "rhs"
      return .assign lhs (← exprs s rhs)
    | "assert" => return .assert (← expr s v)
    | "assume" => return .assume (← expr s v)
    | "debug" => return .debug (← expr s v)
    | "call" =>
      match ← expr s v with
      | .invoke name args => return .call (.invoke name args)
      | .indirect fn args => return .call (.indirect fn args)
      | _ => complain v .notCall
    | "return" => return .ret (← exprs s v)
    | "if" =>
      let ⟨es, _⟩ ← fields v ["cond", "then", "else"]
      let cond ← exprAt s v es "cond"
      let ⟨yes, _⟩ ← required v es "then"
      let yes ← statements s yes
      match fieldAt? "else" es with
      | some ⟨no, _⟩ => return .ifElse cond yes (← statements s no)
      | none => return .ifThen cond yes
    | "while" =>
      let (cond, body) ← loop s v
      return .while cond body
    | "dowhile" =>
      let (cond, body) ← loop s v
      return .doWhile body cond
    | "block" =>
      let ⟨es, _⟩ ← fields v ["name", "body"]
      let ⟨name, _⟩ ← required v es "name"
      if !Text.isName name.text then complain name (.blockName name.text)
      else
        let ⟨body, _⟩ ← required v es "body"
        return .named name.text (← statements s body)
    | "switch" =>
      let ⟨es, _⟩ ← fields v ["tag", "cases"]
      let tag ← exprAt s v es "tag"
      let ⟨cs, _⟩ ← required v es "cases"
      return .switch tag (← clauses s cs)
    | key => complain n (.unknownStatement key)
termination_by sizeOf n

/-- The condition and the body of a loop. -/
def loop (s : Scope) (v : Node) : Except BodyError (Expr × List Stmt) := do
  let ⟨es, _⟩ ← fields v ["cond", "body"]
  let cond ← exprAt s v es "cond"
  let ⟨body, _⟩ ← required v es "body"
  return (cond, ← statements s body)
termination_by sizeOf v

/-- The clauses of a switch. -/
def clauses (s : Scope) (n : Node) : Except BodyError (List (List Constant × List Stmt)) :=
  match n with
  | .sequence _ items =>
    items.attach.mapM fun ⟨c, h⟩ =>
      have := List.sizeOf_lt_of_mem h
      clause s c
  | n => complain n .notClauses
termination_by sizeOf n

/-- A clause of a switch. -/
def clause (s : Scope) (c : Node) : Except BodyError (List Constant × List Stmt) := do
  let ⟨es, _⟩ ← fields c ["values", "body"]
  let values ← clauseValues es
  let ⟨body, _⟩ ← required c es "body"
  return (values, ← statements s body)
termination_by sizeOf c

end

end Narrowing.Container
