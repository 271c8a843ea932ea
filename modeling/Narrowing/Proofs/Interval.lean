import Narrowing.Interval

/-!
# The order of intervals

`a ≤ b` says that `a` lies within `b`.  The union is the least upper bound of two intervals, and what two intervals
share grows with both.  The refinements of a comparison grow with its operands too (`Comparator.split_mono`), and no
operands that take a branch get lost on it (`Interval.inter?_of_mem`, `Outcome.less_of_lt`,
`Outcome.lessEqual_of_le`).
-/

namespace Narrowing

namespace Bound

theorem inc_le_inc {a b : Bound} (h : a ≤ b) : a.inc ≤ b.inc := by
  cases a <;> cases b <;> simp_all [inc]

theorem dec_le_dec {a b : Bound} (h : a ≤ b) : a.dec ≤ b.dec := by
  cases a <;> cases b <;> simp_all [dec]

theorem min_le_min {a a' b b' : Bound} (ha : a ≤ a') (hb : b ≤ b') : min a b ≤ min a' b' :=
  Bound.le_min.2 ⟨Bound.le_trans (Bound.min_le_left a b) ha, Bound.le_trans (Bound.min_le_right a b) hb⟩

theorem max_le_max {a a' b b' : Bound} (ha : a ≤ a') (hb : b ≤ b') : max a b ≤ max a' b' :=
  Bound.max_le.2 ⟨Bound.le_trans ha (Bound.le_max_left a' b'), Bound.le_trans hb (Bound.le_max_right a' b')⟩

/-- An integer below one that is under a bound is under the bound before it. -/
theorem le_dec_of_lt {b : Bound} {m n : Int} (h : m < n) (hn : fin n ≤ b) : fin m ≤ b.dec := by
  cases b with
  | negInf => simp at hn
  | fin k => simp only [fin_le_fin, dec] at hn ⊢; omega
  | posInf => simp [dec]

theorem inc_le_of_lt {b : Bound} {m n : Int} (h : m < n) (hm : b ≤ fin m) : b.inc ≤ fin n := by
  cases b with
  | negInf => simp [inc]
  | fin k => simp only [fin_le_fin, inc] at hm ⊢; omega
  | posInf => simp at hm

end Bound

namespace Interval

/-! ### Within -/

/-- `a` lies within `b`. -/
instance : LE Interval := ⟨fun a b => b.contains a = true⟩

instance (a b : Interval) : Decidable (a ≤ b) := inferInstanceAs (Decidable (b.contains a = true))

/-- An interval lies within another if the ends of the other are outside its own. -/
theorem le_def {a b : Interval} : a ≤ b ↔ b.low ≤ a.low ∧ a.high ≤ b.high := by
  show b.contains a = true ↔ _
  simp [contains]

@[simp] protected theorem le_refl (a : Interval) : a ≤ a := le_def.2 ⟨Bound.le_refl _, Bound.le_refl _⟩

protected theorem le_trans {a b c : Interval} (hab : a ≤ b) (hbc : b ≤ c) : a ≤ c := by
  rw [le_def] at hab hbc ⊢
  exact ⟨Bound.le_trans hbc.1 hab.1, Bound.le_trans hab.2 hbc.2⟩

protected theorem le_antisymm {a b : Interval} (hab : a ≤ b) (hba : b ≤ a) : a = b := by
  rw [le_def] at hab hba
  exact Interval.ext (Bound.le_antisymm hba.1 hab.1) (Bound.le_antisymm hab.2 hba.2)

@[simp] theorem le_top (a : Interval) : a ≤ top := le_def.2 ⟨Bound.negInf_le _, Bound.le_posInf _⟩

theorem eq_top_of_top_le {a : Interval} (h : top ≤ a) : a = top := Interval.le_antisymm (le_top a) h

/-- A wider interval has the integers of a narrower one. -/
theorem mem_of_le {a b : Interval} {n : Int} (h : a ≤ b) (hn : n ∈ a) : n ∈ b := by
  rw [le_def] at h
  rw [mem_def] at hn ⊢
  exact ⟨Bound.le_trans h.1 hn.1, Bound.le_trans hn.2 h.2⟩

theorem mem_top (n : Int) : n ∈ top := mem_def.2 ⟨Bound.negInf_le _, Bound.le_posInf _⟩

theorem mem_single (n : Int) : n ∈ single n := mem_def.2 ⟨Bound.le_refl _, Bound.le_refl _⟩

/-! ### Union -/

theorem le_union_left (a b : Interval) : a ≤ a.union b :=
  le_def.2 ⟨Bound.min_le_left _ _, Bound.le_max_left _ _⟩

theorem le_union_right (a b : Interval) : b ≤ a.union b :=
  le_def.2 ⟨Bound.min_le_right _ _, Bound.le_max_right _ _⟩

/-- The union is the least of the intervals around both. -/
theorem union_le {a b c : Interval} (ha : a ≤ c) (hb : b ≤ c) : a.union b ≤ c := by
  rw [le_def] at ha hb ⊢
  exact ⟨Bound.le_min.2 ⟨ha.1, hb.1⟩, Bound.max_le.2 ⟨ha.2, hb.2⟩⟩

/-! ### What two intervals share -/

/-- Two bounds make an interval exactly if it has them as its ends. -/
theorem ofBounds?_eq_some {low high : Bound} {r : Interval} :
    ofBounds? low high = some r ↔ r.low = low ∧ r.high = high := by
  unfold ofBounds?
  constructor
  · intro h
    split at h
    · cases h; exact ⟨rfl, rfl⟩
    · cases h
  · rintro ⟨rfl, rfl⟩
    rw [dif_pos r.low_le_high]

/-- Wider ends leave an interval where narrower ones do. -/
theorem ofBounds?_mono {low high low' high' : Bound} {r : Interval} (hlow : low' ≤ low) (hhigh : high ≤ high')
    (h : ofBounds? low high = some r) : ∃ r', ofBounds? low' high' = some r' ∧ r ≤ r' := by
  obtain ⟨rfl, rfl⟩ := ofBounds?_eq_some.1 h
  have hle : low' ≤ high' := Bound.le_trans hlow (Bound.le_trans r.low_le_high hhigh)
  exact ⟨⟨low', high', hle⟩, ofBounds?_eq_some.2 ⟨rfl, rfl⟩, le_def.2 ⟨hlow, hhigh⟩⟩

/-- Bounds around an integer make an interval, and it has the integer. -/
theorem ofBounds?_of_mem {low high : Bound} {n : Int} (hlow : low ≤ .fin n) (hhigh : .fin n ≤ high) :
    ∃ r, ofBounds? low high = some r ∧ n ∈ r :=
  ⟨⟨low, high, Bound.le_trans hlow hhigh⟩, ofBounds?_eq_some.2 ⟨rfl, rfl⟩, mem_def.2 ⟨hlow, hhigh⟩⟩

/-- What two intervals share grows with both. -/
theorem inter?_mono {a a' b b' r : Interval} (ha : a ≤ a') (hb : b ≤ b') (h : a.inter? b = some r) :
    ∃ r', a'.inter? b' = some r' ∧ r ≤ r' := by
  rw [le_def] at ha hb
  exact ofBounds?_mono (Bound.max_le_max ha.1 hb.1) (Bound.min_le_min ha.2 hb.2) h

/-- An integer that is in both intervals is in what they share. -/
theorem inter?_of_mem {a b : Interval} {n : Int} (ha : n ∈ a) (hb : n ∈ b) :
    ∃ r, a.inter? b = some r ∧ n ∈ r := by
  rw [mem_def] at ha hb
  exact ofBounds?_of_mem (Bound.max_le.2 ⟨ha.1, hb.1⟩) (Bound.le_min.2 ⟨ha.2, hb.2⟩)

/-- What two intervals share lies within each of them. -/
theorem inter?_le_left {a b r : Interval} (h : a.inter? b = some r) : r ≤ a := by
  obtain ⟨hlow, hhigh⟩ := ofBounds?_eq_some.1 h
  rw [le_def, hlow, hhigh]
  exact ⟨Bound.le_max_left _ _, Bound.min_le_left _ _⟩

theorem inter?_le_right {a b r : Interval} (h : a.inter? b = some r) : r ≤ b := by
  obtain ⟨hlow, hhigh⟩ := ofBounds?_eq_some.1 h
  rw [le_def, hlow, hhigh]
  exact ⟨Bound.le_max_right _ _, Bound.min_le_right _ _⟩

@[simp] theorem inter?_top_top : top.inter? top = some top := rfl

end Interval

/-! ### Branches -/

namespace Outcome

/-- Whatever operands the branch `o` leaves, the branch `o'` leaves wider ones. -/
def Below (o o' : Outcome) : Prop :=
  ∀ l r, o = some (l, r) → ∃ l' r', o' = some (l', r') ∧ l ≤ l' ∧ r ≤ r'

/-- A branch is taken if both operands have an interval left. -/
theorem ofEnds_eq_some {ll lh rl rh : Bound} {l r : Interval} :
    ofEnds ll lh rl rh = some (l, r) ↔ Interval.ofBounds? ll lh = some l ∧ Interval.ofBounds? rl rh = some r := by
  unfold ofEnds
  cases Interval.ofBounds? ll lh <;> cases Interval.ofBounds? rl rh <;> simp

/-- Wider ends leave wider operands. -/
theorem ofEnds_below {ll lh rl rh ll' lh' rl' rh' : Bound} (hll : ll' ≤ ll) (hlh : lh ≤ lh') (hrl : rl' ≤ rl)
    (hrh : rh ≤ rh') : Below (ofEnds ll lh rl rh) (ofEnds ll' lh' rl' rh') := by
  intro l r h
  obtain ⟨hl, hr⟩ := ofEnds_eq_some.1 h
  obtain ⟨l', hl', hle⟩ := Interval.ofBounds?_mono hll hlh hl
  obtain ⟨r', hr', hre⟩ := Interval.ofBounds?_mono hrl hrh hr
  exact ⟨l', r', ofEnds_eq_some.2 ⟨hl', hr'⟩, hle, hre⟩

theorem swap_eq_some {o : Outcome} {l r : Interval} : o.swap = some (l, r) ↔ o = some (r, l) := by
  cases o with
  | none => simp [swap]
  | some p =>
    obtain ⟨a, b⟩ := p
    simp only [swap, Option.map_some, Prod.swap_prod_mk, Option.some.injEq, Prod.mk.injEq]
    exact And.comm

theorem Below.swap {o o' : Outcome} (h : Below o o') : Below o.swap o'.swap := by
  intro l r hlr
  obtain ⟨r', l', h', hr, hl⟩ := h r l (swap_eq_some.1 hlr)
  exact ⟨l', r', swap_eq_some.2 h', hl, hr⟩

/-- Equal operands have what both share. -/
theorem equal_eq_some {a b l r : Interval} : equal a b = some (l, r) ↔ a.inter? b = some l ∧ l = r := by
  unfold equal
  cases a.inter? b with
  | none => simp
  | some s =>
    simp only [Option.map_some, Option.some.injEq, Prod.mk.injEq]
    constructor
    · rintro ⟨rfl, rfl⟩; exact ⟨rfl, rfl⟩
    · rintro ⟨rfl, rfl⟩; exact ⟨rfl, rfl⟩

section Mono

variable {a a' b b' : Interval} (ha : a ≤ a') (hb : b ≤ b')

include ha hb

theorem unchanged_below : Below (some (a, b)) (some (a', b')) := by
  intro l r h
  cases h
  exact ⟨a', b', rfl, ha, hb⟩

theorem equal_below : Below (equal a b) (equal a' b') := by
  intro l r h
  obtain ⟨hl, rfl⟩ := equal_eq_some.1 h
  obtain ⟨l', hl', hle⟩ := Interval.inter?_mono ha hb hl
  exact ⟨l', l', equal_eq_some.2 ⟨hl', rfl⟩, hle, hle⟩

theorem less_below : Below (less a b) (less a' b') := by
  rw [Interval.le_def] at ha hb
  exact ofEnds_below ha.1 (Bound.min_le_min ha.2 (Bound.dec_le_dec hb.2))
    (Bound.max_le_max hb.1 (Bound.inc_le_inc ha.1)) hb.2

theorem lessEqual_below : Below (lessEqual a b) (lessEqual a' b') := by
  rw [Interval.le_def] at ha hb
  exact ofEnds_below ha.1 (Bound.min_le_min ha.2 hb.2) (Bound.max_le_max hb.1 ha.1) hb.2

end Mono

section Within

variable (a b : Interval)

theorem equal_within : Below (equal a b) (some (a, b)) := by
  intro l r h
  obtain ⟨hl, rfl⟩ := equal_eq_some.1 h
  exact ⟨a, b, rfl, Interval.inter?_le_left hl, Interval.inter?_le_right hl⟩

/-- A branch that moves only the upper end of the left and the lower end of the right operand, and both inwards. -/
theorem ofEnds_within {lh rl : Bound} (hlh : lh ≤ a.high) (hrl : b.low ≤ rl) :
    Below (ofEnds a.low lh rl b.high) (some (a, b)) := by
  intro l r h
  obtain ⟨hl, hr⟩ := ofEnds_eq_some.1 h
  obtain ⟨hl₁, hl₂⟩ := Interval.ofBounds?_eq_some.1 hl
  obtain ⟨hr₁, hr₂⟩ := Interval.ofBounds?_eq_some.1 hr
  refine ⟨a, b, rfl, Interval.le_def.2 ?_, Interval.le_def.2 ?_⟩
  · rw [hl₁, hl₂]; exact ⟨Bound.le_refl _, hlh⟩
  · rw [hr₁, hr₂]; exact ⟨hrl, Bound.le_refl _⟩

theorem less_within : Below (less a b) (some (a, b)) :=
  ofEnds_within a b (Bound.min_le_left _ _) (Bound.le_max_left _ _)

theorem lessEqual_within : Below (lessEqual a b) (some (a, b)) :=
  ofEnds_within a b (Bound.min_le_left _ _) (Bound.le_max_left _ _)

end Within

section Members

variable {a b : Interval} {x y : Int}

/-- Operands stay in a branch whose new ends are outside them. -/
theorem ofEnds_of_mem {lh rl : Bound} (hx : x ∈ a) (hy : y ∈ b) (hlh : .fin x ≤ lh) (hrl : rl ≤ .fin y) :
    ∃ l r, ofEnds a.low lh rl b.high = some (l, r) ∧ x ∈ l ∧ y ∈ r := by
  obtain ⟨l, hl, hxl⟩ := Interval.ofBounds?_of_mem (Interval.mem_def.1 hx).1 hlh
  obtain ⟨r, hr, hyr⟩ := Interval.ofBounds?_of_mem hrl (Interval.mem_def.1 hy).2
  exact ⟨l, r, ofEnds_eq_some.2 ⟨hl, hr⟩, hxl, hyr⟩

/-- Operands in order stay in the branch for less. -/
theorem less_of_lt (hx : x ∈ a) (hy : y ∈ b) (h : x < y) :
    ∃ l r, less a b = some (l, r) ∧ x ∈ l ∧ y ∈ r := by
  obtain ⟨hlx, hxh⟩ := Interval.mem_def.1 hx
  obtain ⟨hly, hyh⟩ := Interval.mem_def.1 hy
  exact ofEnds_of_mem hx hy (Bound.le_min.2 ⟨hxh, Bound.le_dec_of_lt h hyh⟩)
    (Bound.max_le.2 ⟨hly, Bound.inc_le_of_lt h hlx⟩)

/-- Operands in order, or equal, stay in the branch for less or equal. -/
theorem lessEqual_of_le (hx : x ∈ a) (hy : y ∈ b) (h : x ≤ y) :
    ∃ l r, lessEqual a b = some (l, r) ∧ x ∈ l ∧ y ∈ r := by
  obtain ⟨hlx, hxh⟩ := Interval.mem_def.1 hx
  obtain ⟨hly, hyh⟩ := Interval.mem_def.1 hy
  have hxy : Bound.fin x ≤ .fin y := Bound.fin_le_fin.2 h
  exact ofEnds_of_mem hx hy (Bound.le_min.2 ⟨hxh, Bound.le_trans hxy hyh⟩)
    (Bound.max_le.2 ⟨hly, Bound.le_trans hlx hxy⟩)

end Members

end Outcome

/-- Both refinements of a comparison grow with its operands. -/
theorem Comparator.split_mono {op : Comparator} {a a' b b' : Interval} {holds fails : Outcome} (ha : a ≤ a')
    (hb : b ≤ b') (h : op.split a b = .ok (holds, fails)) :
    ∃ holds' fails', op.split a' b' = .ok (holds', fails') ∧ holds.Below holds' ∧ fails.Below fails' := by
  cases op with
  | eq => cases h; exact ⟨_, _, rfl, Outcome.equal_below ha hb, Outcome.unchanged_below ha hb⟩
  | ne => cases h; exact ⟨_, _, rfl, Outcome.unchanged_below ha hb, Outcome.equal_below ha hb⟩
  | lt => cases h; exact ⟨_, _, rfl, Outcome.less_below ha hb, (Outcome.lessEqual_below hb ha).swap⟩
  | le => cases h; exact ⟨_, _, rfl, Outcome.lessEqual_below ha hb, (Outcome.less_below hb ha).swap⟩
  | gt => cases h; exact ⟨_, _, rfl, (Outcome.less_below hb ha).swap, Outcome.lessEqual_below ha hb⟩
  | ge => cases h; exact ⟨_, _, rfl, (Outcome.lessEqual_below hb ha).swap, Outcome.less_below ha hb⟩
  | unknown n => cases h

/-- Both refinements of a comparison lie within its operands. -/
theorem Comparator.split_within {op : Comparator} {a b : Interval} {holds fails : Outcome}
    (h : op.split a b = .ok (holds, fails)) : holds.Below (some (a, b)) ∧ fails.Below (some (a, b)) := by
  have hsame : Outcome.Below (some (a, b)) (some (a, b)) :=
    Outcome.unchanged_below (Interval.le_refl a) (Interval.le_refl b)
  have hless : Outcome.Below (Outcome.less b a).swap (some (a, b)) := (Outcome.less_within b a).swap
  have hlessEqual : Outcome.Below (Outcome.lessEqual b a).swap (some (a, b)) := (Outcome.lessEqual_within b a).swap
  cases op with
  | eq => cases h; exact ⟨Outcome.equal_within a b, hsame⟩
  | ne => cases h; exact ⟨hsame, Outcome.equal_within a b⟩
  | lt => cases h; exact ⟨Outcome.less_within a b, hlessEqual⟩
  | le => cases h; exact ⟨Outcome.lessEqual_within a b, hless⟩
  | gt => cases h; exact ⟨hless, Outcome.lessEqual_within a b⟩
  | ge => cases h; exact ⟨hlessEqual, Outcome.less_within a b⟩
  | unknown n => cases h

end Narrowing
