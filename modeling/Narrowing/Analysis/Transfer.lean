import Narrowing.Code
import Narrowing.Frame

/-!
# Transfer

The effect of one code on a frame: which frames it sends along which of its edges.  A comparison refines its operands
on both edges and sends nothing along an edge that no values take.  A code whose result is not modelled forgets its
target; loads and updates of parts of a value have no transfer at all.
-/

namespace Narrowing

/-- An edge out of a code. -/
inductive Edge where
  /-- To the code that follows. -/
  | next
  /-- To a label; `arm` tells the arms of a switch apart. -/
  | jump (label : String) (arm : Nat)
  /-- Into the body of a loop. -/
  | enter
  /-- Out of the unit. -/
  | exit
  deriving DecidableEq, Repr

/-- A frame on its way along an edge. -/
structure Send where
  edge : Edge
  frame : Frame
  deriving DecidableEq, Repr

/-- Why a code has no effect that could be followed. -/
inductive Stop where
  | unsupported
  | fault (f : Fault)
  deriving DecidableEq, Repr

/-- The frame with the refined operands of a comparison, unless they contradict each other: a slot compared with
itself keeps what both refinements allow. -/
def Frame.refine (f : Frame) (left right : Slot) (operands : Interval × Interval) : Except Fault (Option Frame) :=
  if left = right then
    match operands.1.inter? operands.2 with
    | none => .ok none
    | some r => some <$> f.write left r
  else do
    let g ← f.write left operands.1
    some <$> g.write right operands.2

/-- The frame of one branch of a comparison, unless no values take it. -/
def Frame.branch (f : Frame) (left right : Slot) : Outcome → Except Fault (Option Frame)
  | none => .ok none
  | some operands => f.refine left right operands

namespace Code

/-- The sends of a conditional branch. -/
def branchSends (f : Frame) (left : Slot) (op : Comparator) (right : Slot) (target : String) :
    Except Fault (List Send) := do
  let l ← f.read left
  let r ← f.read right
  match l, r with
  | some a, some b =>
    let (holds, fails) ← op.split a b
    let taken ← f.branch left right holds
    let passed ← f.branch left right fails
    return (taken.map (Send.mk (.jump target 0))).toList ++ (passed.map (Send.mk .next)).toList
  | _, _ => return [⟨.jump target 0, f⟩, ⟨.next, f⟩]

/-- The frame of one arm of a switch, unless its value is outside the interval of the operand. -/
def armFrame (f : Frame) (operand : Slot) (contents : Option Interval) (value : Constant) :
    Except Fault (Option Frame) :=
  match contents, value.toInt? with
  | some r, some n =>
    match r.inter? (.single n) with
    | none => .ok none
    | some v => some <$> f.write operand v
  | _, _ => .ok (some f)

/-- The sends of the arms of a switch, the first of which has the given number, and of its default. -/
def armSends (f : Frame) (operand : Slot) (contents : Option Interval) (default : String) (number : Nat) :
    List Arm → Except Fault (List Send)
  | [] => .ok [⟨.jump default number, f⟩]
  | arm :: arms => do
    let first ← armFrame f operand contents arm.value
    let more ← armSends f operand contents default (number + 1) arms
    return (first.map (Send.mk (.jump arm.target number))).toList ++ more

/-- The frame behind a code that fills its target with a value that is not modelled.  An integer variable may hold
any integer then, even if it held nothing before. -/
def forget (isInteger : Slot → Bool) (f : Frame) (target : Slot) : Except Fault Frame :=
  if target = noSlot then .ok f
  else if isInteger target then f.write target .top
  else f.havoc target

/-- The frame behind a copy.  An integer that the frame does not track may be any integer. -/
def copy (isInteger : Slot → Bool) (f : Frame) (target operand : Slot) : Except Fault Frame := do
  match ← f.read operand with
  | some r => f.write target r
  | none => if isInteger operand && isInteger target then f.write target .top else f.undefine target

/-- The frame behind a constant. -/
def load (f : Frame) (target : Slot) (value : Constant) : Except Fault Frame :=
  match value.toInt? with
  | some n => f.write target (.single n)
  | none => f.undefine target

/-- What a code sends when the frame `f` reaches it; `isInteger` tells which variables are integers. -/
def transfer (isInteger : Slot → Bool) (f : Frame) (c : Code) : Except Stop (List Send) :=
  match c with
  | const t v => ((load f t v).mapError .fault).map fun g => [⟨.next, g⟩]
  | assign t s => ((copy isInteger f t s).mapError .fault).map fun g => [⟨.next, g⟩]
  | goto l => .ok [⟨.jump l 0, f⟩]
  | branch a op b l => (branchSends f a op b l).mapError .fault
  | switch a arms d =>
    (do armSends f a (← f.read a) d 0 arms : Except Fault (List Send)).mapError .fault
  | label _ | nop | debug _ => .ok [⟨.next, f⟩]
  | loop _ | bareLoop => .ok [⟨.enter, f⟩]
  | ret _ => .ok [⟨.exit, f⟩]
  | fail => .ok []
  | compute m t _ _ =>
    if m.isAccess then .error .unsupported
    else ((forget isInteger f t).mapError .fault).map fun g => [⟨.next, g⟩]
  | hole => .error (.fault .hole)

end Code

end Narrowing
