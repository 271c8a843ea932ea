/-!
# Bounds

A bound is an integer or one of two infinities beyond all integers.  Bounds are totally ordered; stepping an
infinite bound leaves it where it is.
-/

namespace Narrowing

/-- An integer extended with negative and positive infinity. -/
inductive Bound where
  | negInf
  | fin (n : Int)
  | posInf
  deriving DecidableEq, Repr

namespace Bound

instance : Inhabited Bound := ⟨fin 0⟩

/-! ### Order -/

/-- `a` is not above `b`. -/
protected def le : Bound → Bound → Bool
  | negInf, _ => true
  | _, posInf => true
  | fin m, fin n => decide (m ≤ n)
  | _, _ => false

instance : LE Bound := ⟨fun a b => Bound.le a b = true⟩

instance : LT Bound := ⟨fun a b => Bound.le b a = false⟩

instance (a b : Bound) : Decidable (a ≤ b) := inferInstanceAs (Decidable (Bound.le a b = true))

instance (a b : Bound) : Decidable (a < b) := inferInstanceAs (Decidable (Bound.le b a = false))

@[simp] theorem negInf_le (a : Bound) : negInf ≤ a := by cases a <;> rfl

@[simp] theorem le_posInf (a : Bound) : a ≤ posInf := by cases a <;> rfl

@[simp] theorem fin_le_fin {m n : Int} : fin m ≤ fin n ↔ m ≤ n := by
  show Bound.le _ _ = true ↔ _
  simp [Bound.le]

@[simp] theorem not_posInf_le_fin (n : Int) : ¬ posInf ≤ fin n := Bool.false_ne_true

@[simp] theorem not_posInf_le_negInf : ¬ posInf ≤ negInf := Bool.false_ne_true

@[simp] theorem not_fin_le_negInf (n : Int) : ¬ fin n ≤ negInf := Bool.false_ne_true

@[simp] protected theorem le_refl (a : Bound) : a ≤ a := by cases a <;> simp

protected theorem le_trans {a b c : Bound} (hab : a ≤ b) (hbc : b ≤ c) : a ≤ c := by
  cases a <;> cases b <;> cases c <;> simp_all
  omega

protected theorem le_antisymm {a b : Bound} (hab : a ≤ b) (hba : b ≤ a) : a = b := by
  cases a <;> cases b <;> simp_all
  omega

protected theorem le_total (a b : Bound) : a ≤ b ∨ b ≤ a := by
  cases a <;> cases b <;> simp
  omega

protected theorem not_le {a b : Bound} : ¬ a ≤ b ↔ b < a := by
  show ¬ Bound.le a b = true ↔ Bound.le a b = false
  simp

protected theorem not_lt {a b : Bound} : ¬ a < b ↔ b ≤ a := by
  show ¬ Bound.le b a = false ↔ Bound.le b a = true
  simp

instance : Min Bound := ⟨fun a b => if b < a then b else a⟩

instance : Max Bound := ⟨fun a b => if a < b then b else a⟩

instance : Ord Bound := ⟨fun a b => if a < b then .lt else if b < a then .gt else .eq⟩

theorem min_def (a b : Bound) : min a b = if b < a then b else a := rfl

theorem max_def (a b : Bound) : max a b = if a < b then b else a := rfl

protected theorem le_min {a b c : Bound} : c ≤ min a b ↔ c ≤ a ∧ c ≤ b := by
  rw [min_def]
  split
  · next h =>
    exact ⟨fun hc => ⟨Bound.le_trans hc ((Bound.le_total b a).resolve_right (Bound.not_le.2 h)), hc⟩, And.right⟩
  · next h => exact ⟨fun hc => ⟨hc, Bound.le_trans hc (Bound.not_lt.1 h)⟩, And.left⟩

protected theorem max_le {a b c : Bound} : max a b ≤ c ↔ a ≤ c ∧ b ≤ c := by
  rw [max_def]
  split
  · next h =>
    exact ⟨fun hc => ⟨Bound.le_trans ((Bound.le_total a b).resolve_right (Bound.not_le.2 h)) hc, hc⟩, And.right⟩
  · next h => exact ⟨fun hc => ⟨hc, Bound.le_trans (Bound.not_lt.1 h) hc⟩, And.left⟩

protected theorem min_le_left (a b : Bound) : min a b ≤ a := (Bound.le_min.1 (Bound.le_refl _)).1

protected theorem min_le_right (a b : Bound) : min a b ≤ b := (Bound.le_min.1 (Bound.le_refl _)).2

protected theorem le_max_left (a b : Bound) : a ≤ max a b := (Bound.max_le.1 (Bound.le_refl _)).1

protected theorem le_max_right (a b : Bound) : b ≤ max a b := (Bound.max_le.1 (Bound.le_refl _)).2

/-- The least of a list of bounds. -/
def least? : List Bound → Option Bound
  | [] => none
  | b :: bs => some (bs.foldl min b)

/-- The greatest of a list of bounds. -/
def greatest? : List Bound → Option Bound
  | [] => none
  | b :: bs => some (bs.foldl max b)

/-! ### Steps, sign, value -/

/-- The next bound up; an infinite bound stays. -/
def inc : Bound → Bound
  | fin n => fin (n + 1)
  | b => b

/-- The next bound down; an infinite bound stays. -/
def dec : Bound → Bound
  | fin n => fin (n - 1)
  | b => b

/-- `-1`, `0` or `1`. -/
def sign : Bound → Int
  | negInf => -1
  | fin n => n.sign
  | posInf => 1

def isInfinite : Bound → Bool
  | fin _ => false
  | _ => true

/-- The integer of a finite bound. -/
def toInt? : Bound → Option Int
  | fin n => some n
  | _ => none

def text : Bound → String
  | negInf => "-∞"
  | fin n => toString n
  | posInf => "∞"

end Bound

end Narrowing
