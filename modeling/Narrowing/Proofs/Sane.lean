import Narrowing.Proofs.Transfer
import Narrowing.Ty

/-!
# Sane frames

An interval is proper if no end of it is the infinity on the other side, and a frame of a unit is sane if it has the
unit's slots and proper intervals.  Splitting, joining and widening keep intervals proper, so whatever a code sends from a
sane frame is sane (`Sends.sane`), and so is what two sane frames become where they meet.
-/

namespace Narrowing

/-! ### Proper intervals -/

namespace Bound

/-- One operand is enough to keep a minimum from positive infinity. -/
theorem min_ne_posInf {a : Bound} (b : Bound) (ha : a ≠ posInf) : min a b ≠ posInf := by
  intro h
  have hle : min a b ≤ a := Bound.min_le_left a b
  rw [h] at hle
  exact ha (Bound.le_antisymm (le_posInf a) hle)

theorem max_ne_negInf {a : Bound} (b : Bound) (ha : a ≠ negInf) : max a b ≠ negInf := by
  intro h
  have hle : a ≤ max a b := Bound.le_max_left a b
  rw [h] at hle
  exact ha (Bound.le_antisymm hle (negInf_le a))

theorem max_ne_posInf {a b : Bound} (ha : a ≠ posInf) (hb : b ≠ posInf) : max a b ≠ posInf := by
  rw [max_def]
  split
  · exact hb
  · exact ha

theorem min_ne_negInf {a b : Bound} (ha : a ≠ negInf) (hb : b ≠ negInf) : min a b ≠ negInf := by
  rw [min_def]
  split
  · exact hb
  · exact ha

theorem inc_ne_posInf {a : Bound} (ha : a ≠ posInf) : a.inc ≠ posInf := by
  cases a <;> simp_all [inc]

theorem dec_ne_negInf {a : Bound} (ha : a ≠ negInf) : a.dec ≠ negInf := by
  cases a <;> simp_all [dec]

end Bound

/-- No end of the interval is the infinity on the other side. -/
def Interval.Proper (r : Interval) : Prop := r.low ≠ .posInf ∧ r.high ≠ .negInf

instance (r : Interval) : Decidable r.Proper := inferInstanceAs (Decidable (r.low ≠ .posInf ∧ r.high ≠ .negInf))

namespace Interval

theorem proper_top : top.Proper := ⟨nofun, nofun⟩

theorem proper_single (n : Int) : (single n).Proper := ⟨nofun, nofun⟩

theorem proper_ofWidth (bits : Nat) (signed : Bool) : (ofWidth bits signed).Proper := by
  cases signed <;> exact ⟨nofun, nofun⟩

variable {a b r : Interval}

/-- A union is proper if one of its intervals is. -/
theorem Proper.union (ha : a.Proper) : (a.union b).Proper :=
  ⟨Bound.min_ne_posInf b.low ha.1, Bound.max_ne_negInf b.high ha.2⟩

/-- What proper intervals share is proper, if they share anything. -/
theorem Proper.inter? (ha : a.Proper) (hb : b.Proper) (h : a.inter? b = some r) : r.Proper := by
  obtain ⟨hlow, hhigh⟩ := ofBounds?_eq_some.1 h
  refine ⟨?_, ?_⟩
  · rw [hlow]; exact Bound.max_ne_posInf ha.1 hb.1
  · rw [hhigh]; exact Bound.min_ne_negInf ha.2 hb.2

end Interval

/-- The refined operands of a comparison are proper. -/
def Outcome.Proper (o : Outcome) : Prop := ∀ l k, o = some (l, k) → l.Proper ∧ k.Proper

namespace Outcome

variable {a b : Interval}

theorem proper_unchanged (ha : a.Proper) (hb : b.Proper) : Outcome.Proper (some (a, b)) := by
  intro l k h
  cases h
  exact ⟨ha, hb⟩

theorem proper_equal (ha : a.Proper) (hb : b.Proper) : (equal a b).Proper := by
  intro l k h
  obtain ⟨hr, rfl⟩ := equal_eq_some.1 h
  exact ⟨ha.inter? hb hr, ha.inter? hb hr⟩

/-- Operands that are cut at ends on their own sides stay proper. -/
theorem proper_ofEnds {ll lh rl rh : Bound} (hll : ll ≠ .posInf) (hlh : lh ≠ .negInf) (hrl : rl ≠ .posInf)
    (hrh : rh ≠ .negInf) : (ofEnds ll lh rl rh).Proper := by
  intro l k h
  obtain ⟨hl, hk⟩ := ofEnds_eq_some.1 h
  obtain ⟨rfl, rfl⟩ := Interval.ofBounds?_eq_some.1 hl
  obtain ⟨rfl, rfl⟩ := Interval.ofBounds?_eq_some.1 hk
  exact ⟨⟨hll, hlh⟩, hrl, hrh⟩

theorem proper_less (ha : a.Proper) (hb : b.Proper) : (less a b).Proper :=
  proper_ofEnds ha.1 (Bound.min_ne_negInf ha.2 (Bound.dec_ne_negInf hb.2))
    (Bound.max_ne_posInf hb.1 (Bound.inc_ne_posInf ha.1)) hb.2

theorem proper_lessEqual (ha : a.Proper) (hb : b.Proper) : (lessEqual a b).Proper :=
  proper_ofEnds ha.1 (Bound.min_ne_negInf ha.2 hb.2) (Bound.max_ne_posInf hb.1 ha.1) hb.2

theorem Proper.swap {o : Outcome} (h : o.Proper) : o.swap.Proper := by
  intro l k hlk
  exact (h k l (swap_eq_some.1 hlk)).symm

end Outcome

/-- Both refinements of a comparison of proper operands are proper. -/
theorem Comparator.split_proper {op : Comparator} {a b : Interval} {holds fails : Outcome} (ha : a.Proper) (hb : b.Proper)
    (h : op.split a b = .ok (holds, fails)) : holds.Proper ∧ fails.Proper := by
  cases op with
  | eq => cases h; exact ⟨Outcome.proper_equal ha hb, Outcome.proper_unchanged ha hb⟩
  | ne => cases h; exact ⟨Outcome.proper_unchanged ha hb, Outcome.proper_equal ha hb⟩
  | lt => cases h; exact ⟨Outcome.proper_less ha hb, (Outcome.proper_lessEqual hb ha).swap⟩
  | le => cases h; exact ⟨Outcome.proper_lessEqual ha hb, (Outcome.proper_less hb ha).swap⟩
  | gt => cases h; exact ⟨(Outcome.proper_less hb ha).swap, Outcome.proper_lessEqual ha hb⟩
  | ge => cases h; exact ⟨(Outcome.proper_lessEqual hb ha).swap, Outcome.proper_less ha hb⟩
  | unknown n => cases h

/-- The interval of a type is proper. -/
theorem Ty.proper_range {t : Ty} {r : Interval} (h : t.range? = some r) : r.Proper := by
  cases t with
  | int => cases h; exact Interval.proper_top
  | nominal name =>
    obtain ⟨⟨bits, signed⟩, -, rfl⟩ := Option.map_eq_some_iff.1 h
    exact Interval.proper_ofWidth bits signed
  | _ => cases h

/-! ### Sane frames -/

/-- The frame has the given number of slots, and its intervals are proper. -/
structure Frame.Sane (numSlots : Nat) (f : Frame) : Prop where
  size_eq : f.size = numSlots
  proper : ∀ i r, f.contents i = some r → r.Proper

namespace Frame

variable {numSlots : Nat} {f g : Frame}

theorem Sane.has {n : Int} (h : f.Sane numSlots) (hn : 0 ≤ n ∧ n < numSlots) : f.Has n := by
  have hlt : n.toNat < numSlots := by omega
  exact ⟨hn.1, h.size_eq ▸ hlt⟩

theorem Sane.read {n : Slot} {r : Interval} (h : f.Sane numSlots) (hr : f.read n = .ok (some r)) : r.Proper :=
  h.proper _ r (read_eq_ok.1 hr).2

/-- Setting a slot to a proper interval, or to none, keeps a frame sane. -/
theorem Sane.set {n : Slot} {o : Option Interval} (h : f.Sane numSlots) (ho : ∀ r, o = some r → r.Proper)
    (hg : f.set n o = .ok g) : g.Sane numSlots := by
  obtain ⟨-, hsize, hcont⟩ := set_eq_ok hg
  refine ⟨hsize.trans h.size_eq, fun i r hr => ?_⟩
  rw [hcont i] at hr
  split at hr
  · exact ho r hr
  · exact h.proper i r hr

theorem Sane.write {n : Slot} {r : Interval} (h : f.Sane numSlots) (hr : r.Proper) (hg : f.write n r = .ok g) :
    g.Sane numSlots := by
  refine h.set (fun s hs => ?_) hg
  cases hs
  exact hr

/-- A frame stays sane on each side of a comparison. -/
theorem Sane.branch {left right : Slot} {o : Outcome} (h : f.Sane numSlots) (ho : o.Proper)
    (hg : f.branch left right o = .ok (some g)) : g.Sane numSlots := by
  cases o with
  | none => cases hg
  | some operands =>
    obtain ⟨a, b⟩ := operands
    obtain ⟨ha, hb⟩ := ho a b rfl
    rcases refine_eq_ok.1 hg with ⟨-, r, hr, hg⟩ | ⟨-, k, hk, hg⟩
    · exact h.write (ha.inter? hb hr) hg
    · exact (h.write ha hk).write hb hg

/-- Sane frames of one unit can be joined, and their join is sane. -/
theorem Sane.join (hf : f.Sane numSlots) (hg : g.Sane numSlots) : ∃ k, f.join g = .ok k ∧ k.Sane numSlots := by
  have hsize : f.size = g.size := hf.size_eq.trans hg.size_eq.symm
  have hjoin : f.join g = .ok ⟨List.zipWith joinSlot f.slots g.slots⟩ := by
    unfold Frame.join
    rw [if_pos hsize]
  refine ⟨_, hjoin, (size_join hjoin).2.trans hf.size_eq, fun i r hr => ?_⟩
  rw [contents_join hjoin i] at hr
  cases ha : f.contents i with
  | none => rw [ha] at hr; cases hr
  | some a =>
    cases hb : g.contents i with
    | none => rw [ha, hb] at hr; cases hr
    | some b =>
      rw [ha, hb] at hr
      cases hr
      exact (hf.proper i a ha).union

/-- Widening keeps frames sane: a slot has the interval of the new frame, or all integers. -/
theorem Sane.widen (hf : f.Sane numSlots) (hg : g.Sane numSlots) : (f.widen g).Sane numSlots := by
  have hsize : f.size = g.size := hf.size_eq.trans hg.size_eq.symm
  refine ⟨(size_widen hsize).trans hg.size_eq, fun i r hr => ?_⟩
  rw [show (f.widen g).contents i = widenSlot (f.contents i) (g.contents i) from contents_zipWith hsize rfl i] at hr
  cases hb : g.contents i with
  | none => rw [hb] at hr; cases hr
  | some b =>
    rw [hb] at hr
    unfold widenSlot at hr
    dsimp only at hr
    split at hr
    · cases hr; exact hg.proper i r hb
    · cases hr; exact Interval.proper_top

end Frame

/-- What a code sends from a sane frame is sane. -/
theorem Sends.sane {isInteger : Slot → Bool} {numSlots : Nat} {f : Frame} {c : Code} {s : Send}
    (h : Sends isInteger f c s) (hf : f.Sane numSlots) : s.frame.Sane numSlots := by
  cases h with
  | @const t v g h =>
    refine hf.set (fun r hr => ?_) h
    obtain ⟨n, -, rfl⟩ := Option.map_eq_some_iff.1 hr
    exact Interval.proper_single n
  | @assign t a o g ha h =>
    refine hf.set (fun r hr => ?_) h
    cases o with
    | some r' => cases hr; exact hf.read ha
    | none =>
      simp only [Code.copied] at hr
      split at hr
      · cases hr; exact Interval.proper_top
      · cases hr
  | taken ha hb hs h => exact hf.branch (Comparator.split_proper (hf.read ha) (hf.read hb) hs).1 h
  | passed ha hb hs h => exact hf.branch (Comparator.split_proper (hf.read ha) (hf.read hb) hs).2 h
  | arm ha harm h =>
    rcases Code.armFrame_eq_ok h with ⟨r, n, k, rfl, -, hk, hg⟩ | ⟨-, rfl⟩
    · exact hf.write ((hf.read ha).inter? (Interval.proper_single n) hk) hg
    · exact hf
  | compute hm ht ho h =>
    refine hf.set (fun r hr => ?_) h
    unfold Code.forgotten at hr
    split at hr
    · cases hr; exact Interval.proper_top
    · obtain ⟨_, -, rfl⟩ := Option.map_eq_some_iff.1 hr
      exact Interval.proper_top
  | _ => exact hf

end Narrowing
