import Narrowing.Decl
import Narrowing.Flow
import Narrowing.Tree.Visit

/-!
# Checking files

A file is in order if its declarations have different names, every label that its bytecode goes to stands exactly
once in the same block tree, no operand is absent that a code needs, and every slot is one of the unit's.  `check`
returns the first flaw it meets.
-/

namespace Narrowing

/-- What is wrong with a unit. -/
inductive Flaw where
  | repeatedName
  | repeatedLabel (code : Code) (label : String)
  | hole
  | missingOperand (code : Code)
  | missingTarget (code : Code)
  | unresolvedLabel (code : Code) (label : String)
  | slotOutOfRange (code : Code) (slot : Slot)
  | variableOutOfRange (slot : Slot)
  deriving Repr

def Flaw.message : Flaw → String
  | repeatedName => "declared more than once"
  | repeatedLabel c l => c.text ++ ": label " ++ l ++ " defined more than once"
  | hole => "nil code"
  | missingOperand c => c.text ++ ": missing operand"
  | missingTarget c => c.text ++ ": missing target"
  | unresolvedLabel c l => c.text ++ ": unresolved label " ++ l
  | slotOutOfRange c n => c.text ++ ": slot " ++ toString n ++ " out of range"
  | variableOutOfRange n => "variable " ++ toString n ++ " out of range"

/-- A unit that is not in order. -/
structure Malformed where
  unit : String
  flaw : Flaw
  deriving Repr

def Malformed.message (m : Malformed) : String := m.unit ++ ": malformed unit: " ++ m.flaw.message

/-! ### Blocks -/

/-- A slot of a unit that has the given number of them. -/
def isSlotOf (numSlots : Nat) (n : Slot) : Bool := decide (0 ≤ n) && decide (n < numSlots)

/-- The first code that carries a label which stands before it, or in `seen`. -/
def repeatedLabel? (seen : List String) : List Point → Option Flaw
  | [] => none
  | p :: ps =>
    match p.code with
    | .label name => if seen.contains name then some (.repeatedLabel p.code name) else repeatedLabel? (name :: seen) ps
    | _ => repeatedLabel? seen ps

namespace Code

/-- An operand or target that a code needs and does not have. -/
def absent? (c : Code) : Option Flaw :=
  match c with
  | branch a _ b _ => if a = noSlot ∨ b = noSlot then some (.missingOperand c) else none
  | const t _ => if t = noSlot then some (.missingTarget c) else none
  | assign t s => if t = noSlot ∨ s = noSlot then some (.missingOperand c) else none
  | _ => none

/-- The first flaw of a code in a block tree with the given labels. -/
def flaw? (labels : List String) (numSlots : Nat) (c : Code) : Option Flaw :=
  match c.slots with
  | .error _ => some .hole
  | .ok slots =>
    c.absent? <|>
    ((c.targets.find? (!labels.contains ·)).map (.unresolvedLabel c)) <|>
    (((slots.defs ++ slots.uses).find? (!isSlotOf numSlots ·)).map (.slotOutOfRange c))

end Code

/-- The first flaw of a block. -/
def blockFlaw? (numSlots : Nat) (b : Option Block) : Option Flaw :=
  let points := (Flow.ofBlock b).points
  let labels := points.filterMap (·.code.labelName?)
  repeatedLabel? [] points <|> points.findSome? (·.code.flaw? labels numSlots)

/-! ### Units and files -/

/-- The first variable of a statement tree that is out of range. -/
def treeFlaw? (numSlots : Nat) (body : List Stmt) : Option Flaw :=
  (stmtsSubtrees (fun _ => true) body).findSome? fun node =>
    node.slot?.bind fun n => if isSlotOf numSlots n then none else some (.variableOutOfRange n)

/-- The first flaw of a declaration. -/
def Decl.flaw? : Decl → Option Flaw
  | function f =>
    f.preconditions.findSome? (blockFlaw? f.numSlots) <|>
    blockFlaw? f.numSlots f.code <|>
    treeFlaw? f.numSlots (f.body.getD [])
  | type t => blockFlaw? t.numSlots t.invariant

/-- The first flaw of some declarations; declarations with the given names stand before them. -/
def declsFlaw? (seen : List String) : List Decl → Option Malformed
  | [] => none
  | d :: ds =>
    if seen.contains d.name then some ⟨d.name, .repeatedName⟩
    else
      match d.flaw? with
      | some flaw => some ⟨d.name, flaw⟩
      | none => declsFlaw? (d.name :: seen) ds

/-- Check a file. -/
def File.check (f : File) : Except Malformed Unit :=
  match declsFlaw? [] f.decls with
  | some m => .error m
  | none => .ok ()

end Narrowing
