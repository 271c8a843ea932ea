import Narrowing.Analysis.Result
import Narrowing.Kind

/-!
# Emission

Functions are printed as C.  A construct without a C counterpart does not stop the printing at once: the first one is
remembered, the statement it is in is finished, and no text comes of it.  A fault stops at once and hides it.
-/

namespace Narrowing

/-- A construct without a C counterpart. -/
inductive Construct where
  | multipleReturns
  | noKind (name : String) (range : Interval)
  | type (t : Ty)
  | assignment (values targets : Nat)
  | returnOfMany
  | lambda
  | quantifier
  | typeTest
  deriving BEq, Repr

def Construct.text : Construct → String
  | multipleReturns => "multiple return values"
  | noKind name r => "no integer type holds " ++ name ++ " in " ++ r.text
  | type t => "type " ++ t.text
  | assignment values targets =>
    "assignment of " ++ toString values ++ " values to " ++ toString targets ++ " targets"
  | returnOfMany => "return of multiple values"
  | lambda => "lambda expression"
  | quantifier => "quantifier"
  | typeTest => "type test"

/-- Printing: it remembers the first construct without a counterpart, and faults stop it. -/
abbrev EmitM := StateT (Option Construct) (Except Fault)

/-- Remember a construct, unless one is remembered already. -/
def unsupported (c : Construct) : EmitM Unit := modify fun first => first <|> some c

/-- What is printed, and with which types. -/
structure Emitter where
  decl : FunctionDecl
  /-- The ranges of the variables, if they are known. -/
  result : Option AnalysisResult
  selector : Selector

namespace Emitter

/-- The C name of a type. -/
def typeName (e : Emitter) : Ty → EmitM String
  | .int => pure e.selector.fallback.name
  | .bool => pure "bool"
  | .void => pure "void"
  | .array elem => do return "arr_t(" ++ (← e.typeName elem) ++ ")"
  | .nominal name =>
    match Kind.ofNominal? name with
    | some k => pure k.name
    | none => do
      unsupported (.type (.nominal name))
      return name
  | t => do
    unsupported (.type t)
    return t.text

/-- The variable in a slot of the function. -/
def variableAt (e : Emitter) (n : Slot) : EmitM Variable :=
  match e.decl.lookup? n with
  | some v => pure v
  | none => throw (.noVariable n)

/-- The range of the variable in a slot, if it is an integer whose range is known. -/
def range? (e : Emitter) (n : Slot) (v : Variable) : Option Interval :=
  if v.type.isInteger then e.result.bind (·.range? n.toNat) else none

/-- The C type of the variable in a slot: the kind of its range, or that of its declaration. -/
def variableType (e : Emitter) (n : Slot) : EmitM String := do
  let v ← e.variableAt n
  match e.range? n v with
  | none => e.typeName v.type
  | some r =>
    match e.selector.selectFor r v.type with
    | some k => return k.name
    | none =>
      unsupported (.noKind v.name r)
      return e.selector.fallback.name

def variableName (e : Emitter) (n : Slot) : EmitM String := do return (← e.variableAt n).name

end Emitter

end Narrowing
