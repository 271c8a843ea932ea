import Narrowing.Proofs.Flow
import Narrowing.Proofs.Transfer

/-!
# What the walk keeps

A delivery lets the frames and the change counts of the points only grow, and it leaves every point alone that lies
below the place the walk goes back to (`Delivery.Extends`).  So behind each step the points before the position of the
walk are settled: whatever their codes send from their frames has arrived (`Walk.step_settled`).  A walk that ends has
settled every point (`Walk.run_settled`).
-/

namespace Narrowing

/-! ### Frames of points -/

/-- The frame that reaches the point at a position. -/
def frameAt (cells : List Cell) (i : Nat) : Option Frame := (cells[i]?).bind Cell.frame

/-- No frame is below everything, and a frame is below the greater ones. -/
def FrameBelow (o o' : Option Frame) : Prop := ∀ f, o = some f → ∃ f', o' = some f' ∧ f ≤ f'

namespace FrameBelow

protected theorem refl (o : Option Frame) : FrameBelow o o := fun f h => ⟨f, h, Frame.le_refl f⟩

protected theorem trans {o o' o'' : Option Frame} (h : FrameBelow o o') (h' : FrameBelow o' o'') :
    FrameBelow o o'' := by
  intro f hf
  obtain ⟨f', hf', hle⟩ := h f hf
  obtain ⟨f'', hf'', hle'⟩ := h' f' hf'
  exact ⟨f'', hf'', Frame.le_trans hle hle'⟩

protected theorem antisymm {o o' : Option Frame} (h : FrameBelow o o') (h' : FrameBelow o' o) : o = o' := by
  cases o with
  | none =>
    cases o' with
    | none => rfl
    | some f' => obtain ⟨f, hf, -⟩ := h' f' rfl; cases hf
  | some f =>
    obtain ⟨f', rfl, hle⟩ := h f rfl
    obtain ⟨_, hf, hle'⟩ := h' f' rfl
    cases hf
    rw [Frame.le_antisymm hle hle']

theorem none (o : Option Frame) : FrameBelow none o := by
  intro f h
  cases h

theorem some_some {f f' : Frame} : FrameBelow (some f) (some f') ↔ f ≤ f' := by
  constructor
  · intro h
    obtain ⟨_, hf, hle⟩ := h f rfl
    cases hf
    exact hle
  · intro h k hk
    cases hk
    exact ⟨f', rfl, h⟩

/-- Something at least as great as `f` stands at `o`. -/
theorem some_left {f : Frame} {o : Option Frame} : FrameBelow (some f) o ↔ ∃ g, o = some g ∧ f ≤ g := by
  constructor
  · intro h
    exact h f rfl
  · rintro h k hk
    cases hk
    exact h

end FrameBelow

/-! ### One cell -/

namespace Cell

theorem meet_eq_ok {limit : Nat} {c : Cell} {f : Frame} {o : Option Cell} (h : c.meet limit f = .ok o) :
    (c.frame = none ∧ o = some ⟨some f, c.changes⟩) ∨
      ∃ old new, c.frame = some old ∧ old.join f = .ok new ∧
        ((new = old ∧ o = none) ∨
          (new ≠ old ∧ o = some ⟨some (if limit < c.changes + 1 then old.widen new else new), c.changes + 1⟩)) := by
  unfold meet at h
  cases hc : c.frame with
  | none =>
    rw [hc] at h
    exact .inl ⟨rfl, (Except.ok.inj h).symm⟩
  | some old =>
    rw [hc] at h
    obtain ⟨new, hnew, h⟩ := bind_eq_ok.1 h
    refine .inr ⟨old, new, rfl, hnew, ?_⟩
    by_cases hne : new = old
    · rw [if_pos hne] at h
      exact .inl ⟨hne, (Except.ok.inj h).symm⟩
    · rw [if_neg hne] at h
      exact .inr ⟨hne, (Except.ok.inj h).symm⟩

/-- A frame that changes nothing is below the one that is there. -/
theorem below_of_meet_none {limit : Nat} {c : Cell} {f : Frame} (h : c.meet limit f = .ok none) :
    FrameBelow (some f) c.frame := by
  rcases meet_eq_ok h with ⟨-, ho⟩ | ⟨old, new, hc, hj, ⟨rfl, -⟩ | ⟨-, ho⟩⟩
  · cases ho
  · rw [hc]
    exact FrameBelow.some_some.2 (Frame.le_join_right hj)
  · cases ho

/-- The cell `c` has become `c'`: its frame and its count only grow. -/
def Below (c c' : Cell) : Prop := FrameBelow c.frame c'.frame ∧ c.changes ≤ c'.changes

theorem below_of_meet_some {limit : Nat} {c c' : Cell} {f : Frame} (h : c.meet limit f = .ok (some c')) :
    c.Below c' ∧ FrameBelow (some f) c'.frame := by
  rcases meet_eq_ok h with ⟨hc, ho⟩ | ⟨old, new, hc, hj, ⟨-, ho⟩ | ⟨-, ho⟩⟩
  · cases ho
    exact ⟨⟨hc ▸ FrameBelow.none _, Nat.le_refl _⟩, FrameBelow.refl _⟩
  · cases ho
  · cases ho
    have hgrow : new ≤ if limit < c.changes + 1 then old.widen new else new := by
      split
      · exact Frame.le_widen (Frame.size_join hj).2.symm
      · exact Frame.le_refl new
    refine ⟨⟨?_, Nat.le_succ _⟩, ?_⟩
    · rw [hc]
      exact FrameBelow.some_some.2 (Frame.le_trans (Frame.le_join_left hj) hgrow)
    · exact FrameBelow.some_some.2 (Frame.le_trans (Frame.le_join_right hj) hgrow)

/-- While the count keeps to the limit, a replaced frame is the least that lies above the old and the new one. -/
theorem meet_below {limit : Nat} {c c' : Cell} {f : Frame} {o : Option Frame} (h : c.meet limit f = .ok (some c'))
    (hlimit : c'.changes ≤ limit) (hc : FrameBelow c.frame o) (hf : FrameBelow (some f) o) :
    FrameBelow c'.frame o := by
  rcases meet_eq_ok h with ⟨-, ho⟩ | ⟨old, new, hold, hj, ⟨-, ho⟩ | ⟨-, ho⟩⟩
  · cases ho
    exact hf
  · cases ho
  · cases ho
    obtain ⟨g, rfl, hle⟩ := FrameBelow.some_left.1 hf
    rw [hold] at hc
    rw [if_neg (by simpa using hlimit)]
    exact FrameBelow.some_some.2 (Frame.join_le hj (FrameBelow.some_some.1 hc) hle)

end Cell

/-! ### All cells -/

/-- Every cell has become one that is as great. -/
def Grown (cells cells' : List Cell) : Prop :=
  cells'.length = cells.length ∧ ∀ (i : Nat) (c : Cell), cells[i]? = some c → ∃ c', cells'[i]? = some c' ∧ c.Below c'

theorem Cell.Below.refl (c : Cell) : c.Below c := ⟨FrameBelow.refl _, Nat.le_refl _⟩

theorem Cell.Below.trans {c c' c'' : Cell} (h : c.Below c') (h' : c'.Below c'') : c.Below c'' :=
  ⟨h.1.trans h'.1, Nat.le_trans h.2 h'.2⟩

namespace Grown

protected theorem refl (cells : List Cell) : Grown cells cells := ⟨rfl, fun _ c h => ⟨c, h, .refl c⟩⟩

protected theorem trans {cells cells' cells'' : List Cell} (h : Grown cells cells') (h' : Grown cells' cells'') :
    Grown cells cells'' := by
  refine ⟨h'.1.trans h.1, fun i c hc => ?_⟩
  obtain ⟨c', hc', hle⟩ := h.2 i c hc
  obtain ⟨c'', hc'', hle'⟩ := h'.2 i c' hc'
  exact ⟨c'', hc'', hle.trans hle'⟩

theorem set {cells : List Cell} {j : Nat} {c c' : Cell} (hj : cells[j]? = some c) (h : c.Below c') :
    Grown cells (cells.set j c') := by
  refine ⟨List.length_set, fun i d hd => ?_⟩
  by_cases hij : j = i
  · subst hij
    rw [hj] at hd
    cases hd
    exact ⟨c', by rw [List.getElem?_set_self (List.getElem?_eq_some_iff.1 hj).1], h⟩
  · exact ⟨d, by rw [List.getElem?_set_ne hij, hd], .refl d⟩

theorem frameAt {cells cells' : List Cell} (h : Grown cells cells') (i : Nat) :
    FrameBelow (frameAt cells i) (Narrowing.frameAt cells' i) := by
  intro f hf
  obtain ⟨c, hc, hcf⟩ := Option.bind_eq_some_iff.1 hf
  obtain ⟨c', hc', hle⟩ := h.2 i c hc
  obtain ⟨f', hf', hff⟩ := hle.1 f hcf
  exact ⟨f', Option.bind_eq_some_iff.2 ⟨c', hc', hf'⟩, hff⟩

end Grown

theorem frameAt_set_ne {cells : List Cell} {i j : Nat} {c : Cell} (h : j ≠ i) :
    frameAt (cells.set j c) i = frameAt cells i := by
  unfold frameAt
  rw [List.getElem?_set_ne h]

theorem frameAt_set_self {cells : List Cell} {j : Nat} {c : Cell} (h : j < cells.length) :
    frameAt (cells.set j c) j = c.frame := by
  unfold frameAt
  rw [List.getElem?_set_self h]
  rfl

/-! ### Deliveries -/

namespace Delivery

/-- Where the walk goes on when the point at `pos` is done. -/
def back (pos : Nat) (d : Delivery) : Nat := d.restart.getD (pos + 1)

/-- What deliveries from the point at `pos` do to the knowledge gathered so far. -/
structure Extends (pos : Nat) (d d' : Delivery) : Prop where
  grown : Grown d.cells d'.cells
  exit_below : FrameBelow d.exit d'.exit
  back_le : d'.back pos ≤ d.back pos
  kept : ∀ i, i ≤ pos → i < d'.back pos → frameAt d'.cells i = frameAt d.cells i

protected theorem Extends.refl (pos : Nat) (d : Delivery) : Extends pos d d :=
  ⟨.refl _, .refl _, Nat.le_refl _, fun _ _ _ => rfl⟩

protected theorem Extends.trans {pos : Nat} {d d' d'' : Delivery} (h : Extends pos d d') (h' : Extends pos d' d'') :
    Extends pos d d'' := by
  refine ⟨h.grown.trans h'.grown, h.exit_below.trans h'.exit_below, Nat.le_trans h'.back_le h.back_le, ?_⟩
  intro i hi hback
  rw [h'.kept i hi hback, h.kept i hi (Nat.lt_of_lt_of_le hback h'.back_le)]

/-- A delivery to a point leaves everything as it is, or it replaces the cell of the point. -/
theorem put_cases {limit pos j : Nat} {d d' : Delivery} {f : Frame} (h : d.put limit pos j f = .ok d') :
    (d' = d ∧ ∀ c, d.cells[j]? = some c → c.meet limit f = .ok none) ∨
      ∃ c c', d.cells[j]? = some c ∧ c.meet limit f = .ok (some c') ∧
        d' = ⟨d.cells.set j c', d.exit, if j ≤ pos then some (min j (d.restart.getD j)) else d.restart⟩ := by
  unfold put at h
  cases hj : d.cells[j]? with
  | none =>
    rw [hj] at h
    cases h
    exact .inl ⟨rfl, fun c hc => by cases hc⟩
  | some c =>
    rw [hj] at h
    obtain ⟨o, ho, h⟩ := bind_eq_ok.1 h
    cases o with
    | none =>
      cases h
      refine .inl ⟨rfl, fun c' hc' => ?_⟩
      cases hc'
      exact ho
    | some c' =>
      cases h
      exact .inr ⟨c, c', rfl, ho, rfl⟩

theorem put_extends {limit pos j : Nat} {d d' : Delivery} {f : Frame} (h : d.put limit pos j f = .ok d') :
    Extends pos d d' := by
  rcases put_cases h with ⟨rfl, -⟩ | ⟨c, c', hc, hm, rfl⟩
  · exact .refl pos d'
  · refine ⟨.set hc (Cell.below_of_meet_some hm).1, .refl _, ?_, ?_⟩
    · unfold back
      dsimp only
      split
      · cases d.restart with
        | none => simp only [Option.getD_some, Option.getD_none]; omega
        | some r => simp only [Option.getD_some]; omega
      · exact Nat.le_refl _
    · intro i hi hback
      refine frameAt_set_ne fun hji => ?_
      -- the changed point is one the walk goes back to
      subst hji
      unfold back at hback
      rw [if_pos hi, Option.getD_some] at hback
      omega

theorem put_below {limit pos j : Nat} {d d' : Delivery} {f : Frame} (h : d.put limit pos j f = .ok d')
    (hj : j < d.cells.length) : FrameBelow (some f) (frameAt d'.cells j) := by
  rcases put_cases h with ⟨rfl, hnone⟩ | ⟨c, c', hc, hm, rfl⟩
  · unfold frameAt
    rw [List.getElem?_eq_getElem hj]
    exact Cell.below_of_meet_none (hnone _ (List.getElem?_eq_getElem hj))
  · rw [frameAt_set_self hj]
    exact (Cell.below_of_meet_some hm).2

/-- The frame that has left becomes the least one above what it was and the new one. -/
theorem leave_eq_ok {d d' : Delivery} {f : Frame} (h : d.leave f = .ok d') :
    ∃ g, d' = { d with exit := some g } ∧ FrameBelow d.exit (some g) ∧ f ≤ g ∧
      ∀ o, FrameBelow d.exit o → FrameBelow (some f) o → FrameBelow (some g) o := by
  unfold leave at h
  cases he : d.exit with
  | none =>
    rw [he] at h
    exact ⟨f, (Except.ok.inj h).symm, FrameBelow.none _, Frame.le_refl f, fun _ _ hf => hf⟩
  | some k =>
    rw [he] at h
    obtain ⟨g, hg, h⟩ := bind_eq_ok.1 h
    refine ⟨g, (Except.ok.inj h).symm, FrameBelow.some_some.2 (Frame.le_join_left hg), Frame.le_join_right hg, ?_⟩
    intro o hk hf
    obtain ⟨e, rfl, hle⟩ := FrameBelow.some_left.1 hf
    exact FrameBelow.some_some.2 (Frame.join_le hg (FrameBelow.some_some.1 hk) hle)

/-- A send leaves the unit, leads to no point, or is delivered to the point it leads to. -/
theorem send_cases {t : Task} {pos : Nat} {a : Address} {d d' : Delivery} {s : Send}
    (h : send t pos a d s = .ok d') :
    (s.edge = .exit ∧ d.leave s.frame = .ok d') ∨ (s.edge ≠ .exit ∧ t.flow.follow t.unit a s.edge = .ok none ∧ d' = d) ∨
      ∃ j, s.edge ≠ .exit ∧ t.flow.follow t.unit a s.edge = .ok (some j) ∧ d.put t.limit pos j s.frame = .ok d' := by
  unfold send at h
  cases he : s.edge with
  | exit =>
    rw [he] at h
    exact .inl ⟨rfl, h⟩
  | _ =>
    rw [he] at h
    obtain ⟨o, ho, h⟩ := bind_eq_ok.1 h
    cases o with
    | none => exact .inr (.inl ⟨nofun, ho, (Except.ok.inj h).symm⟩)
    | some j => exact .inr (.inr ⟨j, nofun, ho, h⟩)

theorem send_extends {t : Task} {pos : Nat} {a : Address} {d d' : Delivery} {s : Send}
    (h : send t pos a d s = .ok d') : Extends pos d d' := by
  rcases send_cases h with ⟨-, h⟩ | ⟨-, -, rfl⟩ | ⟨j, -, -, h⟩
  · obtain ⟨g, rfl, hle, -⟩ := leave_eq_ok h
    exact ⟨.refl _, hle, Nat.le_refl _, fun _ _ _ => rfl⟩
  · exact .refl pos d'
  · exact put_extends h

end Delivery

/-- What the code at `a` sends has arrived: at the point it leads to, or outside the unit. -/
structure Delivered (g : Flow) (a : Address) (cells : List Cell) (exit : Option Frame) (s : Send) : Prop where
  arrived : ∀ b j, g.target? a s.edge = some b → g.order? b = some j → j < cells.length →
    FrameBelow (some s.frame) (frameAt cells j)
  left : s.edge = .exit → FrameBelow (some s.frame) exit

theorem Delivered.mono {g : Flow} {a : Address} {cells cells' : List Cell} {exit exit' : Option Frame} {s : Send}
    (h : Delivered g a cells exit s) (hcells : Grown cells cells') (hexit : FrameBelow exit exit') :
    Delivered g a cells' exit' s where
  arrived b j hb hj hlt := (h.arrived b j hb hj (hcells.1 ▸ hlt)).trans (hcells.frameAt j)
  left he := (h.left he).trans hexit

namespace Delivery

theorem send_delivered {t : Task} {pos : Nat} {a : Address} {d d' : Delivery} {s : Send}
    (h : send t pos a d s = .ok d') : Delivered t.flow a d'.cells d'.exit s := by
  rcases send_cases h with ⟨he, h⟩ | ⟨he, hf, rfl⟩ | ⟨j, he, hf, h⟩
  · obtain ⟨g, rfl, -, hle, -⟩ := leave_eq_ok h
    refine ⟨fun b j hb => ?_, fun _ => FrameBelow.some_some.2 hle⟩
    rw [he] at hb
    cases hb
  · refine ⟨fun b j hb hj _ => ?_, fun hex => absurd hex he⟩
    rw [Flow.follow_of_target? hb, hj] at hf
    cases hf
  · refine ⟨fun b k hb hk hlt => ?_, fun hex => absurd hex he⟩
    rw [Flow.follow_of_target? hb, hk] at hf
    cases hf
    exact put_below h ((put_extends h).grown.1 ▸ hlt)

/-- Behind all sends of a point, each of them has arrived. -/
theorem foldlM_send {t : Task} {pos : Nat} {a : Address} {sends : List Send} {d d' : Delivery}
    (h : sends.foldlM (send t pos a) d = .ok d') :
    Extends pos d d' ∧ ∀ s ∈ sends, Delivered t.flow a d'.cells d'.exit s := by
  induction sends generalizing d with
  | nil => cases h; exact ⟨.refl _ _, fun s hs => absurd hs List.not_mem_nil⟩
  | cons s sends ih =>
    rw [List.foldlM_cons] at h
    obtain ⟨d₁, hd₁, h⟩ := bind_eq_ok.1 h
    obtain ⟨hext, hall⟩ := ih h
    refine ⟨(send_extends hd₁).trans hext, fun s' hs' => ?_⟩
    rcases List.mem_cons.1 hs' with rfl | hs'
    · exact (send_delivered hd₁).mono hext.grown hext.exit_below
    · exact hall s' hs'

end Delivery

/-! ### Steps and runs -/

/-- The code at a position can be followed from its frame, and all it sends has arrived. -/
def Settled (t : Task) (cells : List Cell) (exit : Option Frame) (i : Nat) : Prop :=
  ∀ p f, t.flow.points[i]? = some p → frameAt cells i = some f →
    ∃ ss, p.code.transfer t.isInteger f = .ok ss ∧ ∀ s ∈ ss, Delivered t.flow p.address cells exit s

namespace Walk

/-- A step passes a point that no frame reaches, or delivers what the point sends. -/
theorem step_cases {t : Task} {w w' : Walk} {p : Point} (h : w.step t p = .ok w') :
    (frameAt w.cells w.pos = none ∧ w' = { w with pos := w.pos + 1 }) ∨
      ∃ f ss d, frameAt w.cells w.pos = some f ∧ p.code.transfer t.isInteger f = .ok ss ∧
        ss.foldlM (Delivery.send t w.pos p.address) ⟨w.cells, w.exit, none⟩ = .ok d ∧
        w' = ⟨d.cells, d.exit, d.back w.pos⟩ := by
  unfold step at h
  cases hf : frameAt w.cells w.pos with
  | none =>
    rw [show (w.cells[w.pos]?).bind Cell.frame = none from hf] at h
    exact .inl ⟨rfl, (Except.ok.inj h).symm⟩
  | some f =>
    rw [show (w.cells[w.pos]?).bind Cell.frame = some f from hf] at h
    dsimp only at h
    refine .inr ⟨f, ?_⟩
    cases hss : p.code.transfer t.isInteger f with
    | error e => cases e <;> (rw [hss] at h; cases h)
    | ok ss =>
      rw [hss] at h
      dsimp only at h
      cases hd : ss.foldlM (Delivery.send t w.pos p.address) ⟨w.cells, w.exit, none⟩ with
      | error e => rw [hd] at h; cases h
      | ok d =>
        rw [hd] at h
        exact ⟨ss, d, rfl, rfl, hd, (Except.ok.inj h).symm⟩

theorem step_grown {t : Task} {w w' : Walk} {p : Point} (h : w.step t p = .ok w') :
    Grown w.cells w'.cells ∧ FrameBelow w.exit w'.exit := by
  rcases step_cases h with ⟨-, rfl⟩ | ⟨f, ss, d, -, -, hd, rfl⟩
  · exact ⟨.refl _, .refl _⟩
  · obtain ⟨hext, -⟩ := Delivery.foldlM_send hd
    exact ⟨hext.grown, hext.exit_below⟩

/-- Behind a step every point before the new position is settled. -/
theorem step_settled {t : Task} {w w' : Walk} {p : Point} (hp : t.flow.points[w.pos]? = some p)
    (h : w.step t p = .ok w') (hw : ∀ i < w.pos, Settled t w.cells w.exit i) :
    ∀ i < w'.pos, Settled t w'.cells w'.exit i := by
  intro i hi q g hq hg
  rcases step_cases h with ⟨hnone, rfl⟩ | ⟨f, ss, d, hf, hss, hd, rfl⟩
  · rcases Nat.lt_succ_iff_lt_or_eq.1 hi with hi | rfl
    · exact hw i hi q g hq hg
    · rw [hnone] at hg; cases hg
  · obtain ⟨hext, hall⟩ := Delivery.foldlM_send hd
    have hle : i ≤ w.pos := Nat.lt_succ_iff.1 (Nat.lt_of_lt_of_le hi hext.back_le)
    -- the walk goes back to the lowest change, so the frame at `i` is the one that was walked
    have hkept : frameAt d.cells i = frameAt w.cells i := hext.kept i hle hi
    rw [show frameAt d.cells i = some g from hg] at hkept
    rcases Nat.lt_or_eq_of_le hle with hlt | rfl
    · obtain ⟨ts, hts, hold⟩ := hw i hlt q g hq hkept.symm
      exact ⟨ts, hts, fun s hs => (hold s hs).mono hext.grown hext.exit_below⟩
    · rw [hp] at hq
      cases hq
      rw [hf] at hkept
      cases hkept
      exact ⟨ss, hss, hall⟩

/-- What every step keeps holds when the walk ends, and then every point is behind. -/
theorem run_induction {t : Task} {motive : Walk → Prop}
    (hstep : ∀ w p w', t.flow.points[w.pos]? = some p → w.step t p = .ok w' → motive w → motive w')
    {w w' : Walk} (h : w.run t = .ok w') (hw : motive w) : motive w' ∧ t.flow.points.length ≤ w'.pos := by
  fun_induction Walk.run t w with
  | case1 w hp => cases h; exact ⟨hw, List.getElem?_eq_none_iff.1 hp⟩
  | case2 w p hp e hs => cases h
  | case3 w p hp w₁ hs ih => exact ih h (hstep w p w₁ hp hs hw)

theorem run_of_none {t : Task} {w : Walk} (h : t.flow.points[w.pos]? = none) : w.run t = .ok w := by
  rw [run]
  split
  · rfl
  · next p hp => rw [h] at hp; cases hp

theorem run_of_some {t : Task} {w : Walk} {p : Point} (h : t.flow.points[w.pos]? = some p) :
    w.run t = w.step t p >>= run t := by
  rw [run]
  split
  · next hp => rw [h] at hp; cases hp
  · next q hq =>
    rw [h] at hq
    cases hq
    split
    · next e he => rw [he]; rfl
    · next w' hw' => rw [hw']; rfl

/-- Walk on, but over no more than the given number of points. -/
def runFor (t : Task) : Nat → Walk → Except AnalysisError Walk
  | 0, w => .ok w
  | n + 1, w =>
    match t.flow.points[w.pos]? with
    | none => .ok w
    | some p => w.step t p >>= runFor t n

/-- Breaking off and going on later makes no difference. -/
theorem run_eq_runFor_bind (t : Task) (n : Nat) (w : Walk) : w.run t = w.runFor t n >>= run t := by
  induction n generalizing w with
  | zero => rfl
  | succ n ih =>
    unfold runFor
    cases hp : t.flow.points[w.pos]? with
    | none => rfl
    | some p =>
      rw [run_of_some hp]
      dsimp only
      cases w.step t p with
      | error e => rfl
      | ok w' => exact ih w'

theorem run_grown {t : Task} {w w' : Walk} (h : w.run t = .ok w') : Grown w.cells w'.cells := by
  refine (run_induction (motive := fun v => Grown w.cells v.cells) (fun v p v' _ hs hv => ?_) h (.refl _)).1
  exact hv.trans (step_grown hs).1

/-- At the end of a walk every point is settled. -/
theorem run_settled {t : Task} {w w' : Walk} (h : w.run t = .ok w') (hpos : w.pos = 0) :
    ∀ i, Settled t w'.cells w'.exit i := by
  have hstart : ∀ i < w.pos, Settled t w.cells w.exit i := by
    intro i hi
    omega
  obtain ⟨hall, hend⟩ := run_induction
    (motive := fun v => ∀ i < v.pos, Settled t v.cells v.exit i) (fun v p v' hp hs hv => step_settled hp hs hv) h hstart
  intro i p f hp
  have hi : i < t.flow.points.length := (List.getElem?_eq_some_iff.1 hp).1
  exact hall i (Nat.lt_of_lt_of_le hi hend) p f hp

end Walk

end Narrowing
