import Mathlib.Order.Lattice
import Narrowing.Proofs.Monotone
import Narrowing.Proofs.Safety

/-!
# The lattice of frames

The sane frames of one size form a semilattice (`SaneFrame`): they are ordered by what they know, and the frame where
two paths meet is the least one above both.  The laws of `Frame.join` are those of every semilattice then, and a point
needs no new frame exactly if the frame that arrives there is below the one it has.
-/

namespace Narrowing

/-- A frame of the given size, all of whose intervals have integers. -/
@[ext] structure SaneFrame (numSlots : Nat) where
  frame : Frame
  sane : frame.Sane numSlots

namespace SaneFrame

variable {numSlots : Nat}

theorem exists_frame_eq {f : Frame} (hsize : f.size = numSlots) (h : f.IsInhabited) :
    ∃ k : SaneFrame numSlots, k.frame = f :=
  ⟨⟨f, hsize ▸ h.sane⟩, rfl⟩

theorem inhabited (f : SaneFrame numSlots) : f.frame.IsInhabited := Frame.isInhabited_of_sane f.sane

theorem size_eq_size (f g : SaneFrame numSlots) : f.frame.size = g.frame.size :=
  f.sane.size_eq.trans g.sane.size_eq.symm

instance : PartialOrder (SaneFrame numSlots) where
  le f g := f.frame ≤ g.frame
  le_refl f := Frame.le_refl f.frame
  le_trans _ _ _ := Frame.le_trans
  le_antisymm _ _ hfg hgf := SaneFrame.ext (Frame.le_antisymm hfg hgf)

theorem le_iff_narrows {f g : SaneFrame numSlots} : f ≤ g ↔ f.frame.Narrows g.frame :=
  Frame.le_iff_narrows (f.size_eq_size g) f.inhabited

/-! ### Joining -/

instance : SemilatticeSup (SaneFrame numSlots) where
  sup f g := ⟨⟨List.zipWith Frame.joinSlot f.frame.slots g.frame.slots⟩, by
    obtain ⟨k, hk, hsane⟩ := f.sane.join g.sane
    obtain ⟨-, rfl⟩ := Frame.join_eq_ok hk
    exact hsane⟩
  le_sup_left f g := Frame.le_join_left (if_pos (f.size_eq_size g))
  le_sup_right f g := Frame.le_join_right (if_pos (f.size_eq_size g))
  sup_le f g _ hf hg := Frame.join_le (if_pos (f.size_eq_size g)) hf hg

theorem join_frame (f g : SaneFrame numSlots) : f.frame.join g.frame = .ok (f ⊔ g).frame := if_pos (f.size_eq_size g)

theorem frame_eq_iff {f g : SaneFrame numSlots} : f.frame = g.frame ↔ f = g := SaneFrame.ext_iff.symm

theorem join_comm (f g : SaneFrame numSlots) : f.frame.join g.frame = g.frame.join f.frame := by
  rw [join_frame, join_frame, sup_comm]

theorem join_assoc (f g h : SaneFrame numSlots) :
    (f.frame.join g.frame >>= fun j => j.join h.frame) = (g.frame.join h.frame >>= fun j => f.frame.join j) := by
  rw [join_frame f g, join_frame g h]
  show (f ⊔ g).frame.join h.frame = f.frame.join (g ⊔ h).frame
  rw [join_frame, join_frame, sup_assoc]

theorem join_self (f : SaneFrame numSlots) : f.frame.join f.frame = .ok f.frame := by
  rw [join_frame, sup_idem]

/-! ### Replacing -/

/-- The sane frame `new`, which replaces `old`, with every changed interval widened. -/
def widen (old new : SaneFrame numSlots) : SaneFrame numSlots := ⟨old.frame.widen new.frame, old.sane.widen new.sane⟩

theorem frame_widen (old new : SaneFrame numSlots) : (old.widen new).frame = old.frame.widen new.frame := rfl

theorem le_widen (old new : SaneFrame numSlots) : new ≤ old.widen new := Frame.le_widen (old.size_eq_size new)

/-- A frame that arrives where another one stands changes nothing if it is below that one, and otherwise it leaves a
frame above both, widened or not. -/
theorem exists_meet (limit changes : Nat) (f g : SaneFrame numSlots) :
    ∃ o, (Cell.mk (some f.frame) changes).meet limit g.frame = .ok o ∧ (o = none ↔ g ≤ f) ∧
      ∀ c, o = some c → ∃ k : SaneFrame numSlots, c.frame = some k.frame ∧ f ≤ k ∧ g ≤ k := by
  have hsane : ∀ k, (Cell.mk (some f.frame) changes).frame = some k → k.Sane numSlots := by
    intro k hk
    cases hk
    exact f.sane
  obtain ⟨o, ho, -⟩ := Cell.exists_meet limit hsane g.sane
  refine ⟨o, ho, ?_⟩
  rcases Cell.meet_eq_ok ho with ⟨hnone, -⟩ | ⟨old, new, hold, hjoin, hcase⟩
  · cases hnone
  · cases hold
    rw [join_frame] at hjoin
    cases hjoin
    -- the test for a change is whether the join is the old frame
    rw [frame_eq_iff, Ne, frame_eq_iff, sup_eq_left] at hcase
    rcases hcase with ⟨hle, rfl⟩ | ⟨hle, rfl⟩
    · exact ⟨iff_of_true rfl hle, nofun⟩
    · refine ⟨iff_of_false nofun hle, fun c hc => ?_⟩
      cases hc
      dsimp only
      split
      · have hwiden : f ⊔ g ≤ f.widen (f ⊔ g) := le_widen f (f ⊔ g)
        exact ⟨f.widen (f ⊔ g), rfl, le_sup_left.trans hwiden, le_sup_right.trans hwiden⟩
      · exact ⟨f ⊔ g, rfl, le_sup_left, le_sup_right⟩

end SaneFrame

/-- **The frame where paths meet is the least upper bound.**  Between frames of one size whose intervals all have
integers, `Narrows` is a partial order, and `Frame.join` gives the least frame that both narrow; so it is commutative,
associative and idempotent, and leaves a frame as it is exactly if the other one narrows that.  A widened join is above
both frames.  Where a frame arrives at a point that has one, the point keeps its frame exactly if the new one narrows
it, and gets one that both narrow otherwise. -/
theorem join_is_least_upper_bound {numSlots : Nat} {f g h : Frame} (hf : f.size = numSlots) (hg : g.size = numSlots)
    (hh : h.size = numSlots) (hfi : f.IsInhabited) (hgi : g.IsInhabited) (hhi : h.IsInhabited) :
    (f.Narrows f ∧ (f.Narrows g → g.Narrows h → f.Narrows h) ∧ (f.Narrows g ∧ g.Narrows f ↔ f = g)) ∧
    (∃ j, f.join g = .ok j ∧ j.size = numSlots ∧ j.IsInhabited ∧
      f.Narrows j ∧ g.Narrows j ∧ (f.Narrows h → g.Narrows h → j.Narrows h) ∧
      (j = f ↔ g.Narrows f) ∧
      j.Narrows (f.widen j) ∧ f.Narrows (f.widen j) ∧ g.Narrows (f.widen j)) ∧
    (f.join g = g.join f ∧
      (f.join g >>= fun j => j.join h) = (g.join h >>= fun j => f.join j) ∧
      f.join f = .ok f) ∧
    ∀ limit changes, ∃ o, (Cell.mk (some f) changes).meet limit g = .ok o ∧ (o = none ↔ g.Narrows f) ∧
      ∀ c, o = some c → ∃ k, c.frame = some k ∧ f.Narrows k ∧ g.Narrows k := by
  obtain ⟨f, rfl⟩ := SaneFrame.exists_frame_eq hf hfi
  obtain ⟨g, rfl⟩ := SaneFrame.exists_frame_eq hg hgi
  obtain ⟨h, rfl⟩ := SaneFrame.exists_frame_eq hh hhi
  refine ⟨?_, ⟨(f ⊔ g).frame, f.join_frame g, (f ⊔ g).sane.size_eq, (f ⊔ g).inhabited, ?_⟩,
    ⟨f.join_comm g, f.join_assoc g h, f.join_self⟩, fun limit changes => ?_⟩
  · simp only [← SaneFrame.le_iff_narrows, SaneFrame.frame_eq_iff]
    exact ⟨le_refl f, le_trans, le_antisymm_iff.symm⟩
  · have hwiden : f ⊔ g ≤ f.widen (f ⊔ g) := f.le_widen (f ⊔ g)
    simp only [← SaneFrame.frame_widen, ← SaneFrame.le_iff_narrows, SaneFrame.frame_eq_iff]
    exact ⟨le_sup_left, le_sup_right, sup_le, sup_eq_left, hwiden, le_sup_left.trans hwiden, le_sup_right.trans hwiden⟩
  · obtain ⟨o, ho, hnone, hsome⟩ := f.exists_meet limit changes g
    refine ⟨o, ho, hnone.trans SaneFrame.le_iff_narrows, fun c hc => ?_⟩
    obtain ⟨k, hk, hfk, hgk⟩ := hsome c hc
    exact ⟨k.frame, hk, SaneFrame.le_iff_narrows.1 hfk, SaneFrame.le_iff_narrows.1 hgk⟩

/-- The first slot holds 1 to 4, the second one 1, the third one nothing and the fourth one 3. -/
def leftFrame : Frame := ⟨[some ⟨.fin 1, .fin 4, by decide⟩, some (.single 1), none, some (.single 3)]⟩

/-- The first slot holds 8 to 11, the second one nothing, the third one 2 and the fourth one 3. -/
def rightFrame : Frame := ⟨[some ⟨.fin 8, .fin 11, by decide⟩, none, some (.single 2), some (.single 3)]⟩

/-- What both frames know. -/
def metFrame : Frame := ⟨[some ⟨.fin 1, .fin 11, by decide⟩, none, none, some (.single 3)]⟩

theorem join_is_least_upper_bound_metFrame :
    (leftFrame.size = 4 ∧ rightFrame.size = 4 ∧ metFrame.size = 4) ∧
    (leftFrame.IsInhabited ∧ rightFrame.IsInhabited ∧ metFrame.IsInhabited) ∧
    leftFrame.join rightFrame = .ok metFrame ∧ leftFrame.Narrows metFrame ∧ rightFrame.Narrows metFrame ∧
    ¬ rightFrame.Narrows leftFrame ∧ leftFrame.Narrows (leftFrame.widen metFrame) := by
  have hsize : leftFrame.size = 4 ∧ rightFrame.size = 4 ∧ metFrame.size = 4 := ⟨rfl, rfl, rfl⟩
  have hleft : leftFrame.IsInhabited := Frame.isInhabited_of_slots (by decide)
  have hright : rightFrame.IsInhabited := Frame.isInhabited_of_slots (by decide)
  have hmet : metFrame.IsInhabited := Frame.isInhabited_of_slots (by decide)
  have hjoin : leftFrame.join rightFrame = .ok metFrame := rfl
  have hne : metFrame ≠ leftFrame := by decide
  obtain ⟨-, ⟨j, hj, -, -, hlj, hrj, -, hsame, -, hwiden, -⟩, -⟩ :=
    join_is_least_upper_bound hsize.1 hsize.2.1 hsize.2.2 hleft hright hmet
  cases hjoin.symm.trans hj
  exact ⟨hsize, ⟨hleft, hright, hmet⟩, hjoin, hlj, hrj, fun h => hne (hsame.2 h), hwiden⟩

end Narrowing
