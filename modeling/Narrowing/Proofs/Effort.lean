import Narrowing.Analysis.Result
import Narrowing.Proofs.Walk

/-!
# How long the walk takes

The slack of a cell is how often its frame can still be replaced: once for the first frame, once for each change that
the limit allows, and twice for each slot, which can be widened and then emptied.  A delivery that changes a cell uses
up some of its slack.  Between two changes the walk only goes forward, so it can pass all points once for each change,
and once more.
-/

namespace Narrowing

/-! ### Slack -/

/-- How often the frame of the cell can still be replaced. -/
def Cell.slack (limit slots : Nat) (c : Cell) : Nat :=
  match c.frame with
  | none => 1 + limit + 2 * slots
  | some f => (limit - c.changes) + f.rank

/-- The frame of the cell, if it has one, is of the given size. -/
def Cell.Sized (slots : Nat) (c : Cell) : Prop := ∀ f, c.frame = some f → f.size = slots

theorem total_le {α : Type} {w : α → Nat} {k : Nat} {l : List α} (h : ∀ x ∈ l, w x ≤ k) : total w l ≤ l.length * k := by
  induction l with
  | nil => exact Nat.zero_le _
  | cons x l ih =>
    have hx := h x List.mem_cons_self
    have hl := ih fun y hy => h y (List.mem_cons_of_mem x hy)
    rw [total, List.length_cons, Nat.succ_mul]
    omega

theorem Frame.rank_le (f : Frame) : f.rank ≤ 2 * f.size := by
  have hslot : ∀ o ∈ f.slots, slotRank o ≤ 2 := by
    intro o _
    cases o with
    | none => exact Nat.zero_le _
    | some r => simp only [slotRank]; split <;> omega
  have hrank := total_le hslot
  unfold Frame.rank Frame.size
  omega

namespace Cell

theorem slack_le {limit slots : Nat} {c : Cell} (h : c.Sized slots) : c.slack limit slots ≤ 1 + limit + 2 * slots := by
  unfold slack
  split
  · exact Nat.le_refl _
  · next f hf =>
    have hrank := f.rank_le
    rw [h f hf] at hrank
    omega

/-- A replaced frame uses up slack. -/
theorem slack_lt_of_meet {limit slots : Nat} {c c' : Cell} {f : Frame} (h : c.meet limit f = .ok (some c'))
    (hf : f.size = slots) (hc : c.Sized slots) : c'.slack limit slots < c.slack limit slots ∧ c'.Sized slots := by
  obtain ⟨-, hless⟩ := Cell.meet_eq_some h
  rcases meet_eq_ok h with ⟨hnone, ho⟩ | ⟨old, new, hold, hj, ⟨-, ho⟩ | ⟨-, ho⟩⟩
  · cases ho
    have hrank := f.rank_le
    refine ⟨?_, fun g hg => by cases hg; exact hf⟩
    simp only [slack, hnone]
    omega
  · cases ho
  · cases ho
    have hweight := hless.resolve_left (by rw [hold]; exact Option.some_ne_none old)
    refine ⟨?_, fun g hg => ?_⟩
    · simp only [weight, hold] at hweight
      simp only [slack, hold]
      exact hweight
    · cases hg
      have hnew : new.size = slots := (Frame.size_join hj).2.trans (hc old hold)
      split
      · exact (Frame.size_widen (Frame.size_join hj).2.symm).trans hnew
      · exact hnew

end Cell

/-- How often the frames of all points together can still be replaced. -/
def slack (limit slots : Nat) (cells : List Cell) : Nat := total (Cell.slack limit slots) cells

/-- How often the frame of one point can still be replaced. -/
def slackAt (limit slots : Nat) (cells : List Cell) (j : Nat) : Nat :=
  (cells[j]?).elim 0 (Cell.slack limit slots)

/-- Every frame is of the given size. -/
def Sized (slots : Nat) (cells : List Cell) : Prop := ∀ c ∈ cells, c.Sized slots

theorem Sized.set {slots j : Nat} {cells : List Cell} {c : Cell} (h : Sized slots cells) (hc : c.Sized slots) :
    Sized slots (cells.set j c) := by
  intro d hd
  rcases List.mem_or_eq_of_mem_set hd with hd | rfl
  · exact h d hd
  · exact hc

/-! ### Deliveries -/

namespace Delivery

variable {t : Task} {pos slots : Nat} {a : Address} {d d' : Delivery} {s : Send}

/-- A send changes no cell, or it changes one and uses up some of its slack. -/
theorem send_changes (h : send t pos a d s = .ok d') (hs : s.frame.size = slots) (hd : Sized slots d.cells) :
    (d'.cells = d.cells ∧ d'.restart = d.restart) ∨
      ∃ j c c', d.cells[j]? = some c ∧ d'.cells = d.cells.set j c' ∧ c'.Sized slots ∧
        c'.slack t.limit slots < c.slack t.limit slots := by
  rcases send_cases h with ⟨-, h⟩ | ⟨-, -, rfl⟩ | ⟨j, -, -, h⟩
  · obtain ⟨g, rfl, -, -⟩ := leave_eq_ok h
    exact .inl ⟨rfl, rfl⟩
  · exact .inl ⟨rfl, rfl⟩
  · rcases put_cases h with ⟨rfl, -⟩ | ⟨c, c', hc, hm, rfl⟩
    · exact .inl ⟨rfl, rfl⟩
    · obtain ⟨hless, hsized⟩ := Cell.slack_lt_of_meet hm hs (hd c (List.mem_of_getElem? hc))
      exact .inr ⟨j, c, c', hc, rfl, hsized, hless⟩

theorem send_sized (h : send t pos a d s = .ok d') (hs : s.frame.size = slots) (hd : Sized slots d.cells) :
    Sized slots d'.cells := by
  rcases send_changes h hs hd with ⟨hcells, -⟩ | ⟨j, c, c', -, hcells, hsized, -⟩
  · rw [hcells]; exact hd
  · rw [hcells]; exact hd.set hsized

theorem send_slack (h : send t pos a d s = .ok d') (hs : s.frame.size = slots) (hd : Sized slots d.cells) :
    (d'.cells = d.cells ∧ d'.restart = d.restart) ∨ slack t.limit slots d'.cells < slack t.limit slots d.cells := by
  rcases send_changes h hs hd with hsame | ⟨j, c, c', hc, hcells, -, hless⟩
  · exact .inl hsame
  · have hsum := total_set (Cell.slack t.limit slots) d.cells j c c' hc
    refine .inr ?_
    unfold slack
    rw [hcells]
    omega

/-- The frame at one position was replaced at most as often as its slack fell. -/
theorem send_slackAt (h : send t pos a d s = .ok d') (hs : s.frame.size = slots) (hd : Sized slots d.cells) (j : Nat) :
    (if d'.cells[j]? = d.cells[j]? then 0 else 1) + slackAt t.limit slots d'.cells j ≤ slackAt t.limit slots d.cells j := by
  unfold slackAt
  rcases send_changes h hs hd with ⟨hcells, -⟩ | ⟨i, c, c', hc, hcells, -, hless⟩
  · rw [hcells, if_pos rfl]
    exact Nat.le_of_eq (Nat.zero_add _)
  · have hlt : i < d.cells.length := (List.getElem?_eq_some_iff.1 hc).1
    rw [hcells]
    by_cases hij : i = j
    · subst hij
      rw [List.getElem?_set_self hlt, hc]
      simp only [Option.elim_some]
      split <;> omega
    · rw [List.getElem?_set_ne hij, if_pos rfl]
      exact Nat.le_of_eq (Nat.zero_add _)

/-- How often the sends replace the frame at one position. -/
def replacements (t : Task) (pos : Nat) (a : Address) (j : Nat) : Delivery → List Send → Nat
  | _, [] => 0
  | d, s :: ss =>
    match send t pos a d s with
    | .error _ => 0
    | .ok d' => (if d'.cells[j]? = d.cells[j]? then 0 else 1) + replacements t pos a j d' ss

theorem foldlM_sized {sends : List Send} (h : sends.foldlM (send t pos a) d = .ok d')
    (hs : ∀ s ∈ sends, s.frame.size = slots) (hd : Sized slots d.cells) : Sized slots d'.cells :=
  foldlM_induction (motive := fun e => Sized slots e.cells) (fun _ s hmem _ he hsized => send_sized he (hs s hmem) hsized)
    h hd

theorem foldlM_slack {sends : List Send} (h : sends.foldlM (send t pos a) d = .ok d')
    (hs : ∀ s ∈ sends, s.frame.size = slots) (hd : Sized slots d.cells) :
    (d'.cells = d.cells ∧ d'.restart = d.restart) ∨ slack t.limit slots d'.cells < slack t.limit slots d.cells := by
  refine (foldlM_induction (motive := fun e => Sized slots e.cells ∧ ((e.cells = d.cells ∧ e.restart = d.restart) ∨
    slack t.limit slots e.cells < slack t.limit slots d.cells)) (fun e s hmem e' he hkept => ?_) h
    ⟨hd, .inl ⟨rfl, rfl⟩⟩).2
  obtain ⟨hsized, hsofar⟩ := hkept
  refine ⟨send_sized he (hs s hmem) hsized, ?_⟩
  rcases send_slack he (hs s hmem) hsized with ⟨hcells, hrestart⟩ | hless
  · rw [hcells, hrestart]
    exact hsofar
  · rcases hsofar with ⟨hcells, -⟩ | hless'
    · exact .inr (hcells ▸ hless)
    · exact .inr (Nat.lt_trans hless hless')

/-- The sends of a point replace the frame at one position at most as often as its slack falls, and if they fail in
between, at most as often as its slack allows. -/
theorem replacements_le {sends : List Send} (hs : ∀ s ∈ sends, s.frame.size = slots) (hd : Sized slots d.cells)
    (j : Nat) :
    replacements t pos a j d sends +
        (sends.foldlM (send t pos a) d).toOption.elim 0 (fun d' => slackAt t.limit slots d'.cells j) ≤
      slackAt t.limit slots d.cells j := by
  induction sends generalizing d with
  | nil => exact Nat.le_of_eq (Nat.zero_add _)
  | cons s sends ih =>
    unfold replacements
    rw [List.foldlM_cons]
    cases hd₁ : send t pos a d s with
    | error e => exact Nat.zero_le _
    | ok d₁ =>
      have hsize := hs s List.mem_cons_self
      have hfirst := send_slackAt hd₁ hsize hd j
      have hrest := ih (fun s' hs' => hs s' (List.mem_cons_of_mem s hs')) (send_sized hd₁ hsize hd)
      refine Nat.le_trans ?_ hfirst
      rw [Nat.add_assoc]
      exact Nat.add_le_add_left hrest _

end Delivery

/-! ### Counting along a walk -/

namespace Walk

variable {t : Task} {slots : Nat} {w w' : Walk} {p : Point}

/-- The sum of what the given count says of each point, over no more than the given number of points of the walk. -/
def count (t : Task) (m : Walk → Point → Nat) : Nat → Walk → Nat
  | 0, _ => 0
  | n + 1, w =>
    match t.flow.points[w.pos]? with
    | none => 0
    | some p => m w p + (w.step t p).toOption.elim 0 (count t m n)

/-- Whether the code of the next point is applied to a frame. -/
def transferHere (w : Walk) (_ : Point) : Nat := if (frameAt w.cells w.pos).isSome then 1 else 0

/-- How often the next point, when it is walked, replaces the frame at one position. -/
def replacementsHere (t : Task) (j : Nat) (w : Walk) (p : Point) : Nat :=
  match frameAt w.cells w.pos with
  | none => 0
  | some f =>
    match p.code.transfer t.isInteger f with
    | .error _ => 0
    | .ok ss => Delivery.replacements t w.pos p.address j ⟨w.cells, w.exit, none⟩ ss

/-- The number of transfers along the walk, the last of which may have failed. -/
def transfers (t : Task) : Nat → Walk → Nat := count t transferHere

/-- The number of times the frame at one position is replaced along the walk. -/
def replacements (t : Task) (j : Nat) : Nat → Walk → Nat := count t (replacementsHere t j)

/-- What is counted is bounded by whatever every step pays it from. -/
theorem count_le {m : Walk → Point → Nat} {inv : Walk → Prop} (budget : Walk → Nat)
    (hinv : ∀ w p w', t.flow.points[w.pos]? = some p → w.step t p = .ok w' → inv w → inv w')
    (hpay : ∀ w p, t.flow.points[w.pos]? = some p → inv w → m w p + (w.step t p).toOption.elim 0 budget ≤ budget w)
    (n : Nat) (hw : inv w) : count t m n w ≤ budget w := by
  induction n generalizing w with
  | zero => exact Nat.zero_le _
  | succ n ih =>
    unfold count
    split
    · exact Nat.zero_le _
    · next p hp =>
      refine Nat.le_trans (Nat.add_le_add_left ?_ _) (hpay w p hp hw)
      cases hs : w.step t p with
      | error e => exact Nat.le_refl _
      | ok w' => exact ih (hinv w p w' hp hs hw)

theorem sends_sized {f : Frame} {ss : List Send} (hw : Sized slots w.cells) (hf : frameAt w.cells w.pos = some f)
    (hss : p.code.transfer t.isInteger f = .ok ss) : ∀ s ∈ ss, s.frame.size = slots := by
  intro s hs
  obtain ⟨c, hc, hcf⟩ := Option.bind_eq_some_iff.1 hf
  rw [((mem_transfer hss s).1 hs).size_eq]
  exact hw c (List.mem_of_getElem? hc) f hcf

theorem step_sized (h : w.step t p = .ok w') (hw : Sized slots w.cells) : Sized slots w'.cells := by
  rcases step_cases h with ⟨-, rfl⟩ | ⟨f, ss, d, hf, hss, hd, rfl⟩
  · exact hw
  · exact Delivery.foldlM_sized hd (sends_sized hw hf hss) hw

/-- What the walk has left: the points up to the last one, and all of them for each replacement there can be. -/
def remaining (t : Task) (slots : Nat) (w : Walk) : Nat :=
  (t.flow.points.length - w.pos) + t.flow.points.length * slack t.limit slots w.cells

theorem remaining_pos (hp : t.flow.points[w.pos]? = some p) : 0 < w.remaining t slots := by
  have hlt : w.pos < t.flow.points.length := (List.getElem?_eq_some_iff.1 hp).1
  unfold remaining
  omega

/-- Every step leaves less. -/
theorem remaining_lt (hp : t.flow.points[w.pos]? = some p) (h : w.step t p = .ok w') (hw : Sized slots w.cells) :
    w'.remaining t slots < w.remaining t slots := by
  have hlt : w.pos < t.flow.points.length := (List.getElem?_eq_some_iff.1 hp).1
  have hmove : (w'.cells = w.cells ∧ w'.pos = w.pos + 1) ∨
      slack t.limit slots w'.cells < slack t.limit slots w.cells := by
    rcases step_cases h with ⟨-, rfl⟩ | ⟨f, ss, d, hf, hss, hd, rfl⟩
    · exact .inl ⟨rfl, rfl⟩
    · rcases Delivery.foldlM_slack hd (sends_sized hw hf hss) hw with ⟨hcells, hrestart⟩ | hless
      · refine .inl ⟨hcells, ?_⟩
        unfold Delivery.back
        rw [hrestart]
        rfl
      · exact .inr hless
  unfold remaining
  rcases hmove with ⟨hcells, hpos⟩ | hless
  · rw [hcells, hpos]
    omega
  · -- a change is worth a whole pass over the points, wherever the walk goes back to
    have hpass : t.flow.points.length * (slack t.limit slots w'.cells + 1) ≤
        t.flow.points.length * slack t.limit slots w.cells := Nat.mul_le_mul_left _ hless
    rw [Nat.mul_add, Nat.mul_one] at hpass
    omega

/-- A walk that may go on for as long as it has points left comes to its end. -/
theorem runFor_eq_run {n : Nat} (hw : Sized slots w.cells) (hn : w.remaining t slots ≤ n) : w.runFor t n = w.run t := by
  induction n generalizing w with
  | zero =>
    cases hp : t.flow.points[w.pos]? with
    | none => exact (run_of_none hp).symm
    | some p => exact absurd (remaining_pos hp) (Nat.not_lt.2 hn)
  | succ n ih =>
    unfold runFor
    cases hp : t.flow.points[w.pos]? with
    | none => exact (run_of_none hp).symm
    | some p =>
      rw [run_of_some hp]
      dsimp only
      cases hs : w.step t p with
      | error e => rfl
      | ok w' => exact ih (step_sized hs hw) (Nat.le_of_lt_succ (Nat.lt_of_lt_of_le (remaining_lt hp hs hw) hn))

theorem transfers_le (n : Nat) (hw : Sized slots w.cells) : w.transfers t n ≤ w.remaining t slots := by
  refine count_le (remaining t slots) (fun v p v' _ hs hv => step_sized hs hv) (fun v p hp hv => ?_) n hw
  have hone : v.transferHere p ≤ 1 := by
    unfold transferHere
    split <;> omega
  cases hs : v.step t p with
  | error e =>
    have hpos : 0 < v.remaining t slots := remaining_pos hp
    show v.transferHere p + 0 ≤ _
    omega
  | ok v' =>
    have hless := remaining_lt hp hs hv
    show v.transferHere p + v'.remaining t slots ≤ _
    omega

theorem replacements_le (n j : Nat) (hw : Sized slots w.cells) :
    w.replacements t j n ≤ slackAt t.limit slots w.cells j := by
  refine count_le (fun v => slackAt t.limit slots v.cells j) (fun v p v' _ hs hv => step_sized hs hv)
    (fun v p _ hv => ?_) n hw
  unfold replacementsHere step
  cases hf : frameAt v.cells v.pos with
  | none =>
    rw [show (v.cells[v.pos]?).bind Cell.frame = none from hf]
    exact Nat.le_of_eq (Nat.zero_add _)
  | some f =>
    rw [show (v.cells[v.pos]?).bind Cell.frame = some f from hf]
    dsimp only
    cases hss : p.code.transfer t.isInteger f with
    | error e => cases e <;> exact Nat.zero_le _
    | ok ss =>
      have hle : Delivery.replacements t v.pos p.address j ⟨v.cells, v.exit, none⟩ ss +
          (ss.foldlM (Delivery.send t v.pos p.address) ⟨v.cells, v.exit, none⟩).toOption.elim 0
            (fun d => slackAt t.limit slots d.cells j) ≤ slackAt t.limit slots v.cells j :=
        Delivery.replacements_le (sends_sized hv hf hss) hv j
      dsimp only
      cases hd : ss.foldlM (Delivery.send t v.pos p.address) ⟨v.cells, v.exit, none⟩ with
      | error e => rw [hd] at hle; exact hle
      | ok d => rw [hd] at hle; exact hle

theorem sized_start (points : Nat) (f : Frame) : Sized f.size (start points f).cells := by
  intro c hc g hg
  rcases List.mem_or_eq_of_mem_set hc with hc | rfl
  · rw [List.eq_of_mem_replicate hc] at hg
    cases hg
  · cases hg
    rfl

theorem length_start (points : Nat) (f : Frame) : (start points f).cells.length = points := by
  simp [start]

theorem slackAt_start_le (limit points : Nat) (f : Frame) (j : Nat) :
    slackAt limit f.size (start points f).cells j ≤ 1 + limit + 2 * f.size := by
  unfold slackAt
  cases hc : (start points f).cells[j]? with
  | none => exact Nat.zero_le _
  | some c => exact Cell.slack_le (sized_start points f c (List.mem_of_getElem? hc))

theorem remaining_start_le (t : Task) (f : Frame) :
    (start t.flow.points.length f).remaining t f.size ≤
      t.flow.points.length * (1 + t.flow.points.length * (1 + t.limit + 2 * f.size)) := by
  have hslack : slack t.limit f.size (start t.flow.points.length f).cells ≤
      t.flow.points.length * (1 + t.limit + 2 * f.size) := by
    have hcell : ∀ c ∈ (start t.flow.points.length f).cells, c.slack t.limit f.size ≤ 1 + t.limit + 2 * f.size :=
      fun c hc => Cell.slack_le (sized_start t.flow.points.length f c hc)
    have htotal := total_le hcell
    rw [length_start] at htotal
    exact htotal
  have hpass := Nat.mul_le_mul_left t.flow.points.length hslack
  unfold remaining
  rw [Nat.mul_add, Nat.mul_one]
  omega

end Walk

/-- **The walk ends soon.**  In a block with `P` points and from a frame with `S` slots, with the limit `M`, it is over
after `P * (1 + P * (1 + M + 2 * S))` points, whatever way control goes.  It makes no more transfers than that, and it
replaces the frame of no point more than `1 + M + 2 * S` times. -/
theorem walk_effort_bounded (unit : String) (vars : List Variable) (maxJoins : Int) (b : Option Block) (f : Frame) :
    let t := Task.ofBlock unit vars maxJoins b
    let P := (Flow.ofBlock b).points.length
    let M := if 0 < maxJoins then maxJoins.toNat else 8
    let S := f.size
    (∀ n, P * (1 + P * (1 + M + 2 * S)) ≤ n → (Walk.start P f).runFor t n = t.run f) ∧
      (∀ n, (Walk.start P f).transfers t n ≤ P * (1 + P * (1 + M + 2 * S))) ∧
      ∀ n j, (Walk.start P f).replacements t j n ≤ 1 + M + 2 * S := by
  intro t P M S
  have hsized := Walk.sized_start P f
  have hremaining := Walk.remaining_start_le t f
  refine ⟨fun n hn => ?_, fun n => ?_, fun n j => ?_⟩
  · exact Walk.runFor_eq_run hsized (Nat.le_trans hremaining hn)
  · exact Nat.le_trans (Walk.transfers_le n hsized) hremaining
  · exact Nat.le_trans (Walk.replacements_le n j hsized) (Walk.slackAt_start_le t.limit P f j)

end Narrowing
