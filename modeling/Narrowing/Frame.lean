import Narrowing.Interval

/-!
# Frames

A frame gives each variable slot of a unit the interval its value lies in, or nothing where the slot holds no integer
the analysis tracks.  Slots are numbered by any integer a code can name; one outside the frame is a fault.
-/

namespace Narrowing

/-- An interval, or nothing, for each slot of a unit. -/
structure Frame where
  slots : List (Option Interval)
  deriving DecidableEq, Repr

namespace Frame

instance : Inhabited Frame := ⟨⟨[]⟩⟩

/-- The frame of `n` slots that all hold nothing. -/
def blank (n : Nat) : Frame := ⟨List.replicate n none⟩

/-- The frame of undefined slots whose size may be out of range. -/
def ofSize (n : Int) : Except Fault Frame := if n < 0 then .error .frameSize else .ok (blank n.toNat)

def size (f : Frame) : Nat := f.slots.length

/-! ### Single slots -/

/-- The position of a slot the frame has. -/
def position (f : Frame) (n : Int) : Except Fault Nat :=
  if 0 ≤ n ∧ n.toNat < f.size then .ok n.toNat else .error .slot

/-- What a slot holds. -/
def read (f : Frame) (n : Int) : Except Fault (Option Interval) := do
  let i ← f.position n
  return (f.slots[i]?).join

/-- The frame with other contents in one slot. -/
def set (f : Frame) (n : Int) (contents : Option Interval) : Except Fault Frame := do
  let i ← f.position n
  return ⟨f.slots.set i contents⟩

/-- The frame with an interval in one slot. -/
def write (f : Frame) (n : Int) (r : Interval) : Except Fault Frame := f.set n (some r)

/-- The frame with nothing in one slot. -/
def undefine (f : Frame) (n : Int) : Except Fault Frame := f.set n none

/-- Forget the interval of a slot that holds one. -/
def havoc (f : Frame) (n : Int) : Except Fault Frame := do
  match ← f.read n with
  | none => return f
  | some _ => f.write n .top

/-! ### Whole frames -/

/-- What a slot holds where two paths meet. -/
def joinSlot : Option Interval → Option Interval → Option Interval
  | some a, some b => some (a.union b)
  | _, _ => none

/-- The frame where two paths meet: a slot holds an interval only if it does on both. -/
def join (f g : Frame) : Except Fault Frame :=
  if f.size = g.size then .ok ⟨List.zipWith joinSlot f.slots g.slots⟩ else .error (.frameSizes f.size g.size)

/-- Keep an interval that did not change and give up on one that did. -/
def widenSlot (old new : Option Interval) : Option Interval :=
  match new with
  | none => none
  | some r => if old = some r then some r else some .top

/-- The frame `new`, which replaces `old`, with every changed interval widened to all integers. -/
def widen (old new : Frame) : Frame := ⟨List.zipWith widenSlot old.slots new.slots⟩

/-- The slots that hold an interval, with their intervals. -/
def defined (f : Frame) : List (Nat × Interval) :=
  f.slots.zipIdx.filterMap fun (s, i) => s.map fun r => (i, r)

def text (f : Frame) : String :=
  "\x7b" ++ ", ".intercalate (f.defined.map fun (i, r) => "%" ++ toString i ++ ": " ++ r.text) ++ "\x7d"

end Frame

end Narrowing
