import Narrowing.Proofs.Split

/-!
# Transfer is monotone

A frame narrows another if it tracks at least the same slots and its intervals have no integers that those of the other
lack (`Frame.Narrows`).  Between frames whose intervals have integers at all that is their order by ends
(`Frame.le_iff_narrows`), and what a code sends grows with the frame that reaches it.
-/

namespace Narrowing

/-! ### Intervals as sets of integers -/

namespace Bound

theorem le_of_forall_le_fin {a b : Bound} (ha : a ≠ .posInf) (h : ∀ y, a ≤ .fin y → b ≤ .fin y) : b ≤ a := by
  cases a with
  | posInf => exact absurd rfl ha
  | fin m => exact h m (Bound.le_refl _)
  | negInf =>
    cases b with
    | negInf => exact Bound.le_refl _
    | fin n =>
      have hn : n ≤ n - 1 := Bound.fin_le_fin.1 (h (n - 1) (Bound.negInf_le _))
      omega
    | posInf => exact absurd (h 0 (Bound.negInf_le _)) (Bound.not_posInf_le_fin 0)

theorem le_of_forall_fin_le {a b : Bound} (ha : a ≠ .negInf) (h : ∀ x, .fin x ≤ a → .fin x ≤ b) : a ≤ b := by
  cases a with
  | negInf => exact absurd rfl ha
  | fin m => exact h m (Bound.le_refl _)
  | posInf =>
    cases b with
    | posInf => exact Bound.le_refl _
    | fin n =>
      have hn : n + 1 ≤ n := Bound.fin_le_fin.1 (h (n + 1) (Bound.le_posInf _))
      omega
    | negInf => exact absurd (h 0 (Bound.le_posInf _)) (Bound.not_fin_le_negInf 0)

end Bound

/-- One interval lies within another if it has no other integers, as long as it has some. -/
theorem Interval.le_iff_forall_mem {a b : Interval} (ha : a.IsInhabited) : a ≤ b ↔ ∀ x ∈ a, x ∈ b := by
  constructor
  · intro h x hx
    exact mem_of_le h hx
  · intro h
    have hb : b.IsInhabited := Exists.imp h ha
    have hproper := isInhabited_iff_proper.1 ha
    refine le_def.2 ⟨Bound.le_of_forall_le_fin hproper.1 fun y hy => ?_,
      Bound.le_of_forall_fin_le hproper.2 fun y hy => ?_⟩
    · obtain ⟨z, hz, hzy⟩ := (exists_mem_le_iff ha).2 hy
      exact (exists_mem_le_iff hb).1 ⟨z, h z hz, hzy⟩
    · obtain ⟨z, hz, hyz⟩ := (exists_mem_ge_iff ha).2 hy
      exact (exists_mem_ge_iff hb).1 ⟨z, h z hz, hyz⟩

/-! ### Frames -/

namespace Frame

/-- Every interval of the frame has an integer. -/
def IsInhabited (f : Frame) : Prop := ∀ i r, f.contents i = some r → r.IsInhabited

/-- Every slot that `g` tracks is tracked by `f`, with an interval whose integers are all in that of `g`. -/
def Narrows (f g : Frame) : Prop :=
  ∀ i r', g.contents i = some r' → ∃ r, f.contents i = some r ∧ ∀ x ∈ r, x ∈ r'

theorem le_iff_narrows {f g : Frame} (hsize : f.size = g.size) (hf : f.IsInhabited) : f ≤ g ↔ f.Narrows g := by
  constructor
  · rintro ⟨-, h⟩ i r' hr'
    obtain ⟨r, hr, hle⟩ := h i r' hr'
    exact ⟨r, hr, (Interval.le_iff_forall_mem (hf i r hr)).1 hle⟩
  · intro h
    refine ⟨hsize, fun i r' hr' => ?_⟩
    obtain ⟨r, hr, hmem⟩ := h i r' hr'
    exact ⟨r, hr, (Interval.le_iff_forall_mem (hf i r hr)).2 hmem⟩

theorem isInhabited_of_sane {numSlots : Nat} {f : Frame} (h : f.Sane numSlots) : f.IsInhabited := fun i r hr =>
  Interval.isInhabited_iff_proper.2 (h.proper i r hr)

theorem IsInhabited.sane {f : Frame} (h : f.IsInhabited) : f.Sane f.size :=
  ⟨rfl, fun i r hr => Interval.isInhabited_iff_proper.1 (h i r hr)⟩

/-- Whether the intervals of a frame have integers shows at their ends. -/
theorem isInhabited_of_slots {f : Frame} (h : ∀ s ∈ f.slots, ∀ r ∈ s, r.Proper) : f.IsInhabited := by
  intro i r hr
  have hmem : some r ∈ f.slots := List.mem_of_getElem? (Option.join_eq_some_iff.1 hr)
  exact Interval.isInhabited_iff_proper.2 (h (some r) hmem r rfl)

end Frame

/-! ### Transfer -/

/-- **Transfer is monotone.**  Whatever the types of the slots are, if a code can be followed from a frame then it can
be from one that the frame narrows, and each frame it sends narrows one that is sent along the same edge.  So an edge
that nothing takes from the wider frame is not taken from the narrower one. -/
theorem transfer_monotone {isInteger : Slot → Bool} {c : Code} {numSlots : Nat} {f g : Frame} (hf : f.size = numSlots)
    (hg : g.size = numSlots) (hinhabited : f.IsInhabited) (hfg : f.Narrows g) {ss : List Send}
    (hss : c.transfer isInteger f = .ok ss) :
    ∃ ts, c.transfer isInteger g = .ok ts ∧
      (∀ s ∈ ss, ∃ t ∈ ts, t.edge = s.edge ∧ s.frame.Narrows t.frame) ∧
      ∀ e, (∀ t ∈ ts, t.edge ≠ e) → ∀ s ∈ ss, s.edge ≠ e := by
  have hle : f ≤ g := (Frame.le_iff_narrows (hf.trans hg.symm) hinhabited).2 hfg
  obtain ⟨ts, hts⟩ := exists_transfer_mono hle hss
  have hmono : ∀ s ∈ ss, ∃ t ∈ ts, t.edge = s.edge ∧ s.frame.Narrows t.frame := by
    intro s hs
    have hsends := (mem_transfer hss s).1 hs
    obtain ⟨t, ht, hedge, hframe⟩ := hsends.mono hle
    have hsent : s.frame.IsInhabited := Frame.isInhabited_of_sane (hsends.sane hinhabited.sane)
    exact ⟨t, (mem_transfer hts t).2 ht, hedge, (Frame.le_iff_narrows hframe.1 hsent).1 hframe⟩
  refine ⟨ts, hts, hmono, fun e he s hs hse => ?_⟩
  obtain ⟨t, ht, hedge, -⟩ := hmono s hs
  exact he t ht (hedge.trans hse)

/-- The first slot holds 0, 1 or 2 and the second one 3. -/
def shortFrame : Frame := ⟨[some ⟨.fin 0, .fin 2, by decide⟩, some (.single 3)]⟩

/-- The first slot holds no negative number and the second one nothing above 3. -/
def longFrame : Frame := ⟨[some ⟨.fin 0, .posInf, by decide⟩, some ⟨.negInf, .fin 3, by decide⟩]⟩

theorem transfer_monotone_shortFrame :
    shortFrame.size = 2 ∧ longFrame.size = 2 ∧ shortFrame.IsInhabited ∧ shortFrame.Narrows longFrame ∧
    (Code.branch 0 .lt 1 "out").transfer (fun _ => true) shortFrame = .ok [⟨.jump "out" 0, shortFrame⟩] ∧
    ∃ ts, (Code.branch 0 .lt 1 "out").transfer (fun _ => true) longFrame = .ok ts ∧
      ∃ t ∈ ts, t.edge = .jump "out" 0 ∧ shortFrame.Narrows t.frame := by
  have hinhabited : shortFrame.IsInhabited := by
    intro i r hr
    rcases i with _ | _ | i
    · cases hr; exact ⟨0, by decide⟩
    · cases hr; exact ⟨3, by decide⟩
    · cases hr
  have hnarrows : shortFrame.Narrows longFrame := by
    have hle : shortFrame ≤ longFrame := by
      refine ⟨rfl, fun i r' hr' => ?_⟩
      rcases i with _ | _ | i
      · cases hr'; exact ⟨_, rfl, by decide⟩
      · cases hr'; exact ⟨_, rfl, by decide⟩
      · cases hr'
    exact (Frame.le_iff_narrows hle.1 hinhabited).1 hle
  have hsent : (Code.branch 0 .lt 1 "out").transfer (fun _ => true) shortFrame = .ok [⟨.jump "out" 0, shortFrame⟩] := rfl
  have hshort : shortFrame.size = 2 := rfl
  have hlong : longFrame.size = 2 := rfl
  obtain ⟨ts, hts, hmono, -⟩ := transfer_monotone hshort hlong hinhabited hnarrows hsent
  exact ⟨hshort, hlong, hinhabited, hnarrows, hsent, ts, hts, hmono _ List.mem_cons_self⟩

end Narrowing
