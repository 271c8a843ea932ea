import Narrowing.Proofs.Sane

/-!
# Splitting is exact

An integer of one operand takes a side of a comparison if some integer of the other operand takes that side with it.
Where the side tells which operand is smaller, or that they are equal, the refined intervals hold exactly the integers
that take it (`Outcome.IsExact`).  Where it tells only that they differ, the operands stay as they are: those integers
are a whole operand or one without a single point, and that need not be an interval.
-/

namespace Narrowing

/-! ### Members of intervals -/

namespace Interval

/-- At least one integer lies in the interval. -/
def IsInhabited (r : Interval) : Prop := ∃ x : Int, x ∈ r

/-- An interval without integers has both ends at the same infinity. -/
theorem isInhabited_iff_proper {r : Interval} : r.IsInhabited ↔ r.Proper := by
  constructor
  · rintro ⟨x, hlow, hhigh⟩
    refine ⟨fun h => ?_, fun h => ?_⟩
    · rw [h] at hlow
      exact Bound.not_posInf_le_fin x hlow
    · rw [h] at hhigh
      exact Bound.not_fin_le_negInf x hhigh
  · obtain ⟨low, high, hle⟩ := r
    rintro ⟨hlow, hhigh⟩
    cases low with
    | posInf => exact absurd rfl hlow
    | fin m => exact ⟨m, mem_def.2 ⟨Bound.le_refl _, hle⟩⟩
    | negInf =>
      cases high with
      | negInf => exact absurd rfl hhigh
      | fin n => exact ⟨n, mem_def.2 ⟨Bound.negInf_le _, Bound.le_refl _⟩⟩
      | posInf => exact ⟨0, mem_def.2 ⟨Bound.negInf_le _, Bound.le_posInf _⟩⟩

theorem mem_inter?_iff {a b r : Interval} {x : Int} (h : a.inter? b = some r) : x ∈ r ↔ x ∈ a ∧ x ∈ b := by
  constructor
  · intro hx
    exact ⟨mem_of_le (inter?_le_left h) hx, mem_of_le (inter?_le_right h) hx⟩
  · rintro ⟨ha, hb⟩
    obtain ⟨r', hr', hx⟩ := inter?_of_mem ha hb
    rw [h] at hr'
    cases hr'
    exact hx

end Interval

namespace Bound

theorem fin_le_dec {b : Bound} {x : Int} : fin x ≤ b.dec ↔ fin (x + 1) ≤ b := by
  cases b with
  | negInf => simp [dec]
  | fin n => simp only [dec, fin_le_fin]; omega
  | posInf => simp [dec]

theorem inc_le_fin {b : Bound} {y : Int} : b.inc ≤ fin y ↔ b ≤ fin (y - 1) := by
  cases b with
  | negInf => simp [inc]
  | fin n => simp only [inc, fin_le_fin]; omega
  | posInf => simp [inc]

end Bound

namespace Interval

variable {r : Interval} (hr : r.IsInhabited)

include hr

/-- The upper end tells which integers have a member above them or at them. -/
theorem exists_mem_ge_iff {x : Int} : (∃ y ∈ r, x ≤ y) ↔ .fin x ≤ r.high := by
  constructor
  · rintro ⟨y, hy, hxy⟩
    exact Bound.le_trans (Bound.fin_le_fin.2 hxy) (mem_def.1 hy).2
  · intro hx
    obtain ⟨z, hz⟩ := hr
    obtain ⟨hlow, hhigh⟩ := mem_def.1 hz
    -- the greater of `x` and any member is a member
    rcases Int.le_total x z with hxz | hzx
    · exact ⟨z, hz, hxz⟩
    · exact ⟨x, mem_def.2 ⟨Bound.le_trans hlow (Bound.fin_le_fin.2 hzx), hx⟩, Int.le_refl x⟩

theorem exists_mem_le_iff {y : Int} : (∃ x ∈ r, x ≤ y) ↔ r.low ≤ .fin y := by
  constructor
  · rintro ⟨x, hx, hxy⟩
    exact Bound.le_trans (mem_def.1 hx).1 (Bound.fin_le_fin.2 hxy)
  · intro hy
    obtain ⟨z, hz⟩ := hr
    obtain ⟨hlow, hhigh⟩ := mem_def.1 hz
    rcases Int.le_total z y with hzy | hyz
    · exact ⟨z, hz, hzy⟩
    · exact ⟨y, mem_def.2 ⟨hy, Bound.le_trans (Bound.fin_le_fin.2 hyz) hhigh⟩, Int.le_refl y⟩

theorem exists_mem_gt_iff {x : Int} : (∃ y ∈ r, x < y) ↔ .fin x ≤ r.high.dec := by
  rw [Bound.fin_le_dec, ← exists_mem_ge_iff hr]
  exact Iff.rfl

theorem exists_mem_lt_iff {y : Int} : (∃ x ∈ r, x < y) ↔ r.low.inc ≤ .fin y := by
  rw [Bound.inc_le_fin, ← exists_mem_le_iff hr]
  simp only [Int.le_sub_one_iff]

end Interval

/-! ### Exact outcomes -/

namespace Outcome

/-- The refined operands hold all integers of `a` and `b` that stand in the relation, lie within `a` and `b`, and hold
integers at all. -/
structure Refines (o : Outcome) (rel : Int → Int → Prop) (a b : Interval) : Prop where
  keeps : ∀ x ∈ a, ∀ y ∈ b, rel x y → ∃ l r, o = some (l, r) ∧ x ∈ l ∧ y ∈ r
  within : ∀ l r, o = some (l, r) → l ≤ a ∧ r ≤ b
  inhabited : ∀ l r, o = some (l, r) → l.IsInhabited ∧ r.IsInhabited

/-- There are refined operands where some integers of `a` and `b` stand in the relation, and they hold the integers that
do and no others. -/
structure IsExact (o : Outcome) (rel : Int → Int → Prop) (a b : Interval) : Prop where
  reachable_iff : (∃ l r, o = some (l, r)) ↔ ∃ x ∈ a, ∃ y ∈ b, rel x y
  mem_left_iff : ∀ l r, o = some (l, r) → ∀ x, x ∈ l ↔ x ∈ a ∧ ∃ y ∈ b, rel x y
  mem_right_iff : ∀ l r, o = some (l, r) → ∀ y, y ∈ r ↔ y ∈ b ∧ ∃ x ∈ a, rel x y

variable {o : Outcome} {rel rel' : Int → Int → Prop} {a b : Interval}

namespace IsExact

theorem congr (h : o.IsExact rel a b) (hrel : ∀ x y, rel' x y ↔ rel x y) : o.IsExact rel' a b := by
  have heq : rel' = rel := by
    funext x y
    exact propext (hrel x y)
  rw [heq]
  exact h

theorem swap (h : o.IsExact rel b a) : o.swap.IsExact (fun x y => rel y x) a b where
  reachable_iff := by
    constructor
    · rintro ⟨l, r, hlr⟩
      obtain ⟨y, hy, x, hx, hxy⟩ := h.reachable_iff.1 ⟨r, l, swap_eq_some.1 hlr⟩
      exact ⟨x, hx, y, hy, hxy⟩
    · rintro ⟨x, hx, y, hy, hxy⟩
      obtain ⟨r, l, hrl⟩ := h.reachable_iff.2 ⟨y, hy, x, hx, hxy⟩
      exact ⟨l, r, swap_eq_some.2 hrl⟩
  mem_left_iff l r hlr := h.mem_right_iff r l (swap_eq_some.1 hlr)
  mem_right_iff l r hlr := h.mem_left_iff r l (swap_eq_some.1 hlr)

/-- An exact outcome loses nothing, and each of its intervals holds the integers that made it reachable. -/
theorem refines (h : o.IsExact rel a b) (hwithin : o.Below (some (a, b))) : o.Refines rel a b where
  keeps x hx y hy hxy := by
    obtain ⟨l, r, hlr⟩ := h.reachable_iff.2 ⟨x, hx, y, hy, hxy⟩
    exact ⟨l, r, hlr, (h.mem_left_iff l r hlr x).2 ⟨hx, y, hy, hxy⟩, (h.mem_right_iff l r hlr y).2 ⟨hy, x, hx, hxy⟩⟩
  within l r hlr := by
    obtain ⟨l', r', hsome, hl, hr⟩ := hwithin l r hlr
    cases hsome
    exact ⟨hl, hr⟩
  inhabited l r hlr := by
    obtain ⟨x, hx, y, hy, hxy⟩ := h.reachable_iff.1 ⟨l, r, hlr⟩
    exact ⟨⟨x, (h.mem_left_iff l r hlr x).2 ⟨hx, y, hy, hxy⟩⟩, ⟨y, (h.mem_right_iff l r hlr y).2 ⟨hy, x, hx, hxy⟩⟩⟩

end IsExact

theorem refines_unchanged (ha : a.IsInhabited) (hb : b.IsInhabited) : Refines (some (a, b)) rel a b where
  keeps x hx y hy _ := ⟨a, b, rfl, hx, hy⟩
  within l r h := by
    cases h
    exact ⟨Interval.le_refl a, Interval.le_refl b⟩
  inhabited l r h := by
    cases h
    exact ⟨ha, hb⟩

section Exact

variable (ha : a.IsInhabited) (hb : b.IsInhabited)

include ha hb

theorem isExact_equal : (equal a b).IsExact (· = ·) a b where
  reachable_iff := by
    constructor
    · rintro ⟨l, r, hlr⟩
      have hproper := proper_equal (Interval.isInhabited_iff_proper.1 ha) (Interval.isInhabited_iff_proper.1 hb) l r hlr
      obtain ⟨x, hx⟩ := Interval.isInhabited_iff_proper.2 hproper.1
      obtain ⟨hxa, hxb⟩ := (Interval.mem_inter?_iff (equal_eq_some.1 hlr).1).1 hx
      exact ⟨x, hxa, x, hxb, rfl⟩
    · rintro ⟨x, hx, y, hy, rfl⟩
      obtain ⟨l, hl, -⟩ := Interval.inter?_of_mem hx hy
      exact ⟨l, l, equal_eq_some.2 ⟨hl, rfl⟩⟩
  mem_left_iff l r hlr x := by
    obtain ⟨hl, rfl⟩ := equal_eq_some.1 hlr
    rw [Interval.mem_inter?_iff hl]
    simp
  mem_right_iff l r hlr y := by
    obtain ⟨hl, rfl⟩ := equal_eq_some.1 hlr
    rw [Interval.mem_inter?_iff hl, and_comm]
    simp

omit ha hb in
/-- Moving the inner ends of the operands is exact if the new ends tell which integers stand in the relation with a
member of the other operand. -/
theorem isExact_ofEnds {high low : Bound} (hhigh : ∀ x, (∃ y ∈ b, rel x y) ↔ .fin x ≤ high)
    (hlow : ∀ y, (∃ x ∈ a, rel x y) ↔ low ≤ .fin y)
    (hproper : (ofEnds a.low (min a.high high) (max b.low low) b.high).Proper) :
    (ofEnds a.low (min a.high high) (max b.low low) b.high).IsExact rel a b := by
  have hleft : ∀ l r, ofEnds a.low (min a.high high) (max b.low low) b.high = some (l, r) →
      ∀ x, x ∈ l ↔ x ∈ a ∧ ∃ y ∈ b, rel x y := by
    intro l r hlr x
    obtain ⟨hl₁, hl₂⟩ := Interval.ofBounds?_eq_some.1 (ofEnds_eq_some.1 hlr).1
    rw [Interval.mem_def, Interval.mem_def, hl₁, hl₂, Bound.le_min, hhigh, and_assoc]
  have hright : ∀ l r, ofEnds a.low (min a.high high) (max b.low low) b.high = some (l, r) →
      ∀ y, y ∈ r ↔ y ∈ b ∧ ∃ x ∈ a, rel x y := by
    intro l r hlr y
    obtain ⟨hr₁, hr₂⟩ := Interval.ofBounds?_eq_some.1 (ofEnds_eq_some.1 hlr).2
    rw [Interval.mem_def, Interval.mem_def, hr₁, hr₂, Bound.max_le, hlow, and_right_comm]
  refine ⟨⟨?_, ?_⟩, hleft, hright⟩
  · rintro ⟨l, r, hlr⟩
    obtain ⟨x, hx⟩ := Interval.isInhabited_iff_proper.2 (hproper l r hlr).1
    exact ⟨x, (hleft l r hlr x).1 hx⟩
  · rintro ⟨x, hx, y, hy, hxy⟩
    have hxhigh : .fin x ≤ high := (hhigh x).1 ⟨y, hy, hxy⟩
    have hlowy : low ≤ .fin y := (hlow y).1 ⟨x, hx, hxy⟩
    obtain ⟨l, r, hlr, -, -⟩ := ofEnds_of_mem hx hy (Bound.le_min.2 ⟨(Interval.mem_def.1 hx).2, hxhigh⟩)
      (Bound.max_le.2 ⟨(Interval.mem_def.1 hy).1, hlowy⟩)
    exact ⟨l, r, hlr⟩

theorem isExact_less : (less a b).IsExact (· < ·) a b :=
  isExact_ofEnds (fun _ => Interval.exists_mem_gt_iff hb) (fun _ => Interval.exists_mem_lt_iff ha)
    (proper_less (Interval.isInhabited_iff_proper.1 ha) (Interval.isInhabited_iff_proper.1 hb))

theorem isExact_lessEqual : (lessEqual a b).IsExact (· ≤ ·) a b :=
  isExact_ofEnds (fun _ => Interval.exists_mem_ge_iff hb) (fun _ => Interval.exists_mem_le_iff ha)
    (proper_lessEqual (Interval.isInhabited_iff_proper.1 ha) (Interval.isInhabited_iff_proper.1 hb))

end Exact

end Outcome

/-! ### Comparisons -/

namespace Comparator

/-- The comparison holds of two integers. -/
def Holds : Comparator → Int → Int → Prop
  | eq, x, y => x = y
  | ne, x, y => x ≠ y
  | lt, x, y => x < y
  | le, x, y => x ≤ y
  | gt, x, y => x > y
  | ge, x, y => x ≥ y
  | unknown _, _, _ => False

/-- Two integers take the side of a comparison on which it holds, or the one on which it does not. -/
def Takes (op : Comparator) (side : Bool) (x y : Int) : Prop := if side then op.Holds x y else ¬ op.Holds x y

/-- The side of the comparison tells more of its operands than that they differ. -/
def isSharp : Comparator → Bool → Bool
  | eq, side => side
  | ne, side => !side
  | _, _ => true

variable {op : Comparator} {a b : Interval} {holds fails : Outcome}

theorem exists_split (hop : op ∈ known) (a b : Interval) : ∃ holds fails, op.split a b = .ok (holds, fails) := by
  cases op with
  | unknown n => simp [known] at hop
  | _ => exact ⟨_, _, rfl⟩

theorem split_eq_unchanged {side : Bool} (h : op.split a b = .ok (holds, fails)) (hside : op.isSharp side = false) :
    (if side then holds else fails) = some (a, b) := by
  cases op with
  | eq =>
    cases side
    · cases h; rfl
    · cases hside
  | ne =>
    cases side
    · cases hside
    · cases h; rfl
  | _ => cases hside

theorem isExact_split {side : Bool} (h : op.split a b = .ok (holds, fails)) (ha : a.IsInhabited) (hb : b.IsInhabited)
    (hside : op.isSharp side = true) : Outcome.IsExact (if side then holds else fails) (op.Takes side) a b := by
  have hequal := Outcome.isExact_equal ha hb
  have hless := Outcome.isExact_less ha hb
  have hlessEqual := Outcome.isExact_lessEqual ha hb
  have hgreater := (Outcome.isExact_less hb ha).swap
  have hgreaterEqual := (Outcome.isExact_lessEqual hb ha).swap
  cases op with
  | eq =>
    cases side <;> cases h
    · cases hside
    · exact hequal
  | ne =>
    cases side <;> cases h
    · exact hequal.congr fun x y => by simp [Takes, Holds]
    · cases hside
  | lt =>
    cases side <;> cases h
    · exact hgreaterEqual.congr fun x y => by simp [Takes, Holds]
    · exact hless
  | le =>
    cases side <;> cases h
    · exact hgreater.congr fun x y => by simp [Takes, Holds]
    · exact hlessEqual
  | gt =>
    cases side <;> cases h
    · exact hlessEqual.congr fun x y => by simp [Takes, Holds]
    · exact hgreater
  | ge =>
    cases side <;> cases h
    · exact hless.congr fun x y => by simp [Takes, Holds]
    · exact hgreaterEqual
  | unknown n => cases h

end Comparator

/-- **Splitting is sound and exact.**  On each side of a comparison of inhabited operands, the refined operands keep the
integers that take the side, lie within the operands and hold integers.  Unless the side says only that the operands
differ, the refined operands hold just the integers that take it; otherwise they are the operands. -/
theorem split_sound_and_exact {op : Comparator} {a b : Interval} (hop : op ∈ Comparator.known) (ha : a.IsInhabited)
    (hb : b.IsInhabited) :
    ∃ holds fails, op.split a b = .ok (holds, fails) ∧ ∀ side : Bool,
      Outcome.Refines (if side then holds else fails) (op.Takes side) a b ∧
      (op.isSharp side = true → Outcome.IsExact (if side then holds else fails) (op.Takes side) a b) ∧
      (op.isSharp side = false → (if side then holds else fails) = some (a, b)) := by
  obtain ⟨holds, fails, hsplit⟩ := Comparator.exists_split hop a b
  refine ⟨holds, fails, hsplit, fun side => ⟨?_, Comparator.isExact_split hsplit ha hb,
    Comparator.split_eq_unchanged hsplit⟩⟩
  cases hside : op.isSharp side with
  | false =>
    rw [Comparator.split_eq_unchanged hsplit hside]
    exact Outcome.refines_unchanged ha hb
  | true =>
    obtain ⟨hholds, hfails⟩ := Comparator.split_within hsplit
    have hwithin : Outcome.Below (if side then holds else fails) (some (a, b)) := by
      cases side
      · exact hfails
      · exact hholds
    exact (Comparator.isExact_split hsplit ha hb hside).refines hwithin

/-- Two half lines that overlap. -/
theorem split_sound_and_exact_halfLines :
    let a : Interval := ⟨.negInf, .fin 5, by decide⟩
    let b : Interval := ⟨.fin 3, .posInf, by decide⟩
    Comparator.ge ∈ Comparator.known ∧ a.IsInhabited ∧ b.IsInhabited ∧
      ∃ fails, Comparator.ge.split a b = .ok (some (⟨.fin 3, .fin 5, by decide⟩, ⟨.fin 3, .fin 5, by decide⟩), fails) ∧
        fails.IsExact (· < ·) a b := by
  intro a b
  have ha : a.IsInhabited := ⟨5, by decide⟩
  have hb : b.IsInhabited := ⟨3, by decide⟩
  have hop : Comparator.ge ∈ Comparator.known := by decide
  refine ⟨hop, ha, hb, ?_⟩
  obtain ⟨holds, fails, hsplit, hsides⟩ := split_sound_and_exact hop ha hb
  have hexact := (hsides false).2.1 rfl
  cases hsplit
  exact ⟨_, rfl, hexact.congr fun x y => by simp [Comparator.Takes, Comparator.Holds]⟩

end Narrowing
