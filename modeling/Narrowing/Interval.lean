import Narrowing.Fault

/-!
# Intervals

A closed interval of integers with possibly infinite ends.  The ends are never the wrong way round: the type carries
the proof.  `Comparator.split` refines the two operands of a comparison, once for the branch where it holds and once
for the branch where it does not.
-/

namespace Narrowing

/-- The closed interval from `low` to `high`. -/
structure Interval where
  low : Bound
  high : Bound
  low_le_high : low ≤ high
  deriving DecidableEq, Repr

namespace Interval

/-- An integer lies in an interval. -/
instance : Membership Int Interval := ⟨fun r n => r.low ≤ .fin n ∧ .fin n ≤ r.high⟩

instance (n : Int) (r : Interval) : Decidable (n ∈ r) :=
  inferInstanceAs (Decidable (r.low ≤ .fin n ∧ .fin n ≤ r.high))

theorem mem_def {n : Int} {r : Interval} : n ∈ r ↔ r.low ≤ .fin n ∧ .fin n ≤ r.high := Iff.rfl

/-- Two intervals with the same ends are the same. -/
@[ext] theorem ext {a b : Interval} (hl : a.low = b.low) (hh : a.high = b.high) : a = b := by
  cases a; cases b; simp_all

/-- All integers. -/
def top : Interval := ⟨.negInf, .posInf, Bound.negInf_le _⟩

instance : Inhabited Interval := ⟨top⟩

/-- The interval between two bounds, unless it is empty. -/
def ofBounds? (low high : Bound) : Option Interval :=
  if h : low ≤ high then some ⟨low, high, h⟩ else none

/-- The interval between two bounds. -/
def ofBounds (low high : Bound) : Except Fault Interval :=
  match ofBounds? low high with
  | some r => .ok r
  | none => .error (.inverted low high)

/-- The interval of one integer. -/
def single (n : Int) : Interval := ⟨.fin n, .fin n, Bound.le_refl _⟩

/-- The number of words of the given width. -/
def wordCount (bits : Nat) : Int := Int.ofNat (Nat.pow 2 bits)

theorem wordCount_pos (bits : Nat) : 0 < wordCount bits := Int.ofNat_lt.2 (Nat.two_pow_pos bits)

/-- The integers that a two's complement word of the given width represents. -/
def ofWidth (bits : Nat) (signed : Bool) : Interval :=
  if signed then
    ⟨.fin (-wordCount (bits - 1)), .fin (wordCount (bits - 1) - 1), by
      have := wordCount_pos (bits - 1)
      rw [Bound.fin_le_fin]; omega⟩
  else
    ⟨.fin 0, .fin (wordCount bits - 1), by
      have := wordCount_pos bits
      rw [Bound.fin_le_fin]; omega⟩

/-- The width of a word that fills memory, in which addresses of bytes have 48 bits. -/
def maxBits : Int := 0x8000000000000

/-- The integers of a word whose width may be out of range. -/
def ofBits (bits : Int) (signed : Bool) : Except Fault Interval :=
  if bits < (if signed then 1 else 0) || maxBits < bits then .error .width else .ok (ofWidth bits.toNat signed)

def isTop (r : Interval) : Bool := r.low == .negInf && r.high == .posInf

/-- Both ends are integers. -/
def isFinite (r : Interval) : Bool := !r.low.isInfinite && !r.high.isInfinite

def text (r : Interval) : String := "[" ++ r.low.text ++ ", " ++ r.high.text ++ "]"

/-- The smallest interval that holds both. -/
def union (a b : Interval) : Interval :=
  ⟨min a.low b.low, max a.high b.high,
    Bound.le_trans (Bound.min_le_left _ _) (Bound.le_trans a.low_le_high (Bound.le_max_left _ _))⟩

/-- `b` lies within `a`. -/
def contains (a b : Interval) : Bool := decide (a.low ≤ b.low) && decide (b.high ≤ a.high)

/-- What two intervals share, unless they are disjoint. -/
def inter? (a b : Interval) : Option Interval :=
  ofBounds? (max a.low b.low) (min a.high b.high)

end Interval

/-! ### Splitting -/

/-- The operands of a comparison as one branch knows them, or nothing if no operands take the branch. -/
abbrev Outcome := Option (Interval × Interval)

namespace Outcome

/-- The operands within the given ends. -/
def ofEnds (leftLow leftHigh rightLow rightHigh : Bound) : Outcome := do
  let l ← Interval.ofBounds? leftLow leftHigh
  let r ← Interval.ofBounds? rightLow rightHigh
  return (l, r)

def swap (o : Outcome) : Outcome := o.map Prod.swap

/-- The operands where they are equal. -/
def equal (a b : Interval) : Outcome := (a.inter? b).map fun r => (r, r)

/-- The operands where the left one is smaller. -/
def less (a b : Interval) : Outcome :=
  ofEnds a.low (min a.high b.high.dec) (max b.low a.low.inc) b.high

/-- The operands where the left one is not greater. -/
def lessEqual (a b : Interval) : Outcome :=
  ofEnds a.low (min a.high b.high) (max b.low a.low) b.high

end Outcome

/-- The operands `a` and `b` of a comparison, refined where it holds and where it does not. -/
def Comparator.split (op : Comparator) (a b : Interval) : Except Fault (Outcome × Outcome) :=
  match op with
  | eq => .ok (.equal a b, some (a, b))
  | ne => .ok (some (a, b), .equal a b)
  | lt => .ok (.less a b, (Outcome.lessEqual b a).swap)
  | le => .ok (.lessEqual a b, (Outcome.less b a).swap)
  | gt => .ok ((Outcome.less b a).swap, .lessEqual a b)
  | ge => .ok ((Outcome.lessEqual b a).swap, .less a b)
  | unknown _ => .error (.comparator op)

end Narrowing
