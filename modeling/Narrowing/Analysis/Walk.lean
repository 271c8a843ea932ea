import Narrowing.Analysis.Transfer
import Narrowing.Flow

/-!
# The walk

The analysis of one block walks its points in address order and delivers what each code sends to the points it goes
to.  Where two frames meet they are joined; if that changes a point that was walked already, the walk goes back to the
lowest such point.  A point whose frame has changed too often has its changed intervals widened.

The walk ends because each change makes something smaller: the number of points without a frame, or else the weight
of the frames that are there.  A slot can be widened once and emptied once, and before that the changes of a point are
counted down from the limit.
-/

namespace Narrowing

/-- What the walk knows of a point: the frame that reaches it, and how often that frame was replaced. -/
structure Cell where
  frame : Option Frame
  changes : Nat
  deriving DecidableEq, Repr, Inhabited

/-- A block to be analysed. -/
structure Task where
  unit : String
  flow : Flow
  /-- Which variables are integers. -/
  isInteger : Slot → Bool
  /-- How often a frame may be replaced before it is widened. -/
  limit : Nat

/-- The knowledge gathered so far, while the frames of one point are delivered. -/
structure Delivery where
  cells : List Cell
  /-- The join of the frames that left the unit. -/
  exit : Option Frame
  /-- The lowest point, not above the one being walked, whose frame changed. -/
  restart : Option Nat
  deriving DecidableEq, Repr

/-- The walk between two points. -/
structure Walk where
  cells : List Cell
  exit : Option Frame
  /-- The point to be walked next. -/
  pos : Nat
  deriving DecidableEq, Repr

/-- Why an analysis has no result. -/
inductive AnalysisError where
  | unsupported (unit : String) (point : Point)
  | fault (f : Fault)
  deriving Repr

/-- Where an edge out of the code at an address leads, as a position in address order. -/
def Flow.follow (g : Flow) (unit : String) (a : Address) : Edge → Except Fault (Option Nat)
  | .next => .ok ((g.next? a).bind g.order?)
  | .jump l _ =>
    match g.label? l with
    | some b => .ok (g.order? b)
    | none => .error (.unresolved l unit)
  | .enter => return (← g.enter? a).bind g.order?
  | .exit => .ok none

/-- The cell of a point that a frame reaches, if that changes it. -/
def Cell.meet (limit : Nat) (c : Cell) (f : Frame) : Except Fault (Option Cell) :=
  match c.frame with
  | none => .ok (some { c with frame := some f })
  | some old => do
    let new ← old.join f
    if new = old then return none
    else
      let changes := c.changes + 1
      return some ⟨some (if limit < changes then old.widen new else new), changes⟩

namespace Delivery

/-- Deliver a frame to the point at position `j` while the point at `pos` is walked. -/
def put (limit pos : Nat) (d : Delivery) (j : Nat) (f : Frame) : Except Fault Delivery := do
  match d.cells[j]? with
  | none => return d
  | some c =>
    match ← c.meet limit f with
    | none => return d
    | some c' =>
      return { d with
        cells := d.cells.set j c'
        restart := if j ≤ pos then some (min j (d.restart.getD j)) else d.restart }

/-- Take a frame out of the unit. -/
def leave (d : Delivery) (f : Frame) : Except Fault Delivery := do
  match d.exit with
  | none => return { d with exit := some f }
  | some g => return { d with exit := some (← g.join f) }

/-- Deliver what the code at an address sends. -/
def send (t : Task) (pos : Nat) (a : Address) (d : Delivery) (s : Send) : Except Fault Delivery := do
  match s.edge with
  | .exit => d.leave s.frame
  | edge =>
    match ← t.flow.follow t.unit a edge with
    | none => return d
    | some j => d.put t.limit pos j s.frame

end Delivery

namespace Walk

/-- The walk before its first step: the given frame reaches the first point. -/
def start (points : Nat) (f : Frame) : Walk :=
  { cells := (List.replicate points (⟨none, 0⟩ : Cell)).set 0 ⟨some f, 0⟩, exit := none, pos := 0 }

/-- Walk the point `p`, which is the next one. -/
def step (t : Task) (w : Walk) (p : Point) : Except AnalysisError Walk :=
  match (w.cells[w.pos]?).bind Cell.frame with
  | none => .ok { w with pos := w.pos + 1 }
  | some f =>
    match p.code.transfer t.isInteger f with
    | .error .unsupported => .error (.unsupported t.unit p)
    | .error (.fault e) => .error (.fault e)
    | .ok sends =>
      match sends.foldlM (Delivery.send t w.pos p.address) ⟨w.cells, w.exit, none⟩ with
      | .error e => .error (.fault e)
      | .ok d => .ok ⟨d.cells, d.exit, d.restart.getD (w.pos + 1)⟩

end Walk

/-! ### Why the walk ends -/

/-- How often what a slot holds can still change once changes are widened. -/
def slotRank : Option Interval → Nat
  | none => 0
  | some r => if r = .top then 1 else 2

/-- The sum of the weights of the elements. -/
def total {α : Type} (w : α → Nat) : List α → Nat
  | [] => 0
  | x :: l => w x + total w l

def Frame.rank (f : Frame) : Nat := total slotRank f.slots

/-- How often the frame of a point that has one can still be replaced. -/
def Cell.weight (limit : Nat) (c : Cell) : Nat :=
  match c.frame with
  | none => 0
  | some f => (limit - c.changes) + f.rank

/-- The number of points without a frame. -/
def absent (cells : List Cell) : Nat := cells.countP (·.frame.isNone)

/-- How often the frames that are there can still be replaced. -/
def weight (limit : Nat) (cells : List Cell) : Nat := total (Cell.weight limit) cells

/-- Fewer points without a frame, or as many and less weight. -/
def Lighter (limit : Nat) (new old : List Cell) : Prop :=
  absent new < absent old ∨ absent new = absent old ∧ weight limit new < weight limit old

theorem Lighter.trans {limit : Nat} {a b c : List Cell} (hab : Lighter limit a b) (hbc : Lighter limit b c) :
    Lighter limit a c := by
  unfold Lighter at *
  omega

theorem top_union (r : Interval) : Interval.top.union r = .top := by
  have hlow : (Interval.top.union r).low = .negInf :=
    Bound.le_antisymm (Bound.min_le_left _ _) (Bound.negInf_le _)
  have hhigh : (Interval.top.union r).high = .posInf :=
    Bound.le_antisymm (Bound.le_posInf _) (Bound.le_max_left .posInf r.high)
  exact Interval.ext hlow hhigh

theorem slotRank_joinSlot_le (a b : Option Interval) : slotRank (Frame.joinSlot a b) ≤ slotRank a := by
  cases a with
  | none => simp [Frame.joinSlot, slotRank]
  | some r =>
    cases b with
    | none => simp [Frame.joinSlot, slotRank]
    | some s =>
      by_cases h : r = .top
      · subst h; simp [Frame.joinSlot, slotRank, top_union]
      · simp only [Frame.joinSlot, slotRank, h, if_false]; split <;> omega

theorem slotRank_widenSlot_le (a b : Option Interval) :
    slotRank (Frame.widenSlot a (Frame.joinSlot a b)) ≤ slotRank a ∧
      (Frame.joinSlot a b ≠ a → slotRank (Frame.widenSlot a (Frame.joinSlot a b)) < slotRank a) := by
  cases a with
  | none => simp [Frame.joinSlot, Frame.widenSlot, slotRank]
  | some r =>
    cases b with
    | none => constructor <;> simp only [Frame.joinSlot, Frame.widenSlot, slotRank] <;> split <;> omega
    | some s =>
      by_cases hu : r.union s = r
      · simp [Frame.joinSlot, Frame.widenSlot, hu]
      · have hr : r ≠ .top := fun h => hu (by rw [h, top_union])
        have hu' : ¬ (some r = some (r.union s)) := fun h => hu (Option.some.inj h).symm
        simp [Frame.joinSlot, Frame.widenSlot, slotRank, hu', hr]

theorem rank_joinSlots_le (as bs : List (Option Interval)) :
    total slotRank (List.zipWith Frame.joinSlot as bs) ≤ total slotRank as := by
  induction as generalizing bs with
  | nil => simp
  | cons a as ih =>
    cases bs with
    | nil => simp [total]
    | cons b bs =>
      have h1 := slotRank_joinSlot_le a b
      have h2 := ih bs
      simp only [List.zipWith_cons_cons, total]
      omega

theorem rank_widenSlots_le (as bs : List (Option Interval)) (hlen : as.length = bs.length) :
    total slotRank (List.zipWith Frame.widenSlot as (List.zipWith Frame.joinSlot as bs)) ≤ total slotRank as ∧
      (List.zipWith Frame.joinSlot as bs ≠ as →
        total slotRank (List.zipWith Frame.widenSlot as (List.zipWith Frame.joinSlot as bs)) < total slotRank as) := by
  induction as generalizing bs with
  | nil => simp
  | cons a as ih =>
    cases bs with
    | nil => simp at hlen
    | cons b bs =>
      obtain ⟨h1, h1'⟩ := slotRank_widenSlot_le a b
      obtain ⟨h2, h2'⟩ := ih bs (by simpa using hlen)
      simp only [List.zipWith_cons_cons, total]
      refine ⟨by omega, fun hne => ?_⟩
      by_cases ha : Frame.joinSlot a b = a
      · have : List.zipWith Frame.joinSlot as bs ≠ as := fun h => hne (by rw [ha, h])
        have := h2' this
        omega
      · have := h1' ha
        omega

theorem Frame.join_eq_ok {f g h : Frame} (hj : f.join g = .ok h) :
    f.slots.length = g.slots.length ∧ h = ⟨List.zipWith joinSlot f.slots g.slots⟩ := by
  unfold Frame.join Frame.size at hj
  split at hj
  · next heq => exact ⟨heq, (Except.ok.inj hj).symm⟩
  · cases hj

/-- A replaced cell either had no frame, or weighs less than before. -/
theorem Cell.meet_eq_some {limit : Nat} {c c' : Cell} {f : Frame} (h : c.meet limit f = .ok (some c')) :
    c'.frame.isSome ∧ (c.frame = none ∨ c'.weight limit < c.weight limit) := by
  unfold Cell.meet at h
  split at h
  · next hc =>
    have := Option.some.inj (Except.ok.inj h)
    subst this
    exact ⟨rfl, .inl hc⟩
  · next old hc =>
    cases hj : old.join f with
    | error e => rw [hj] at h; cases h
    | ok new =>
      obtain ⟨hlen, rfl⟩ := Frame.join_eq_ok hj
      rw [hj] at h
      simp only [bind, Except.bind] at h
      split at h
      · cases h
      · next hne =>
        have := Option.some.inj (Except.ok.inj h)
        subst this
        refine ⟨rfl, .inr ?_⟩
        have hne' : List.zipWith Frame.joinSlot old.slots f.slots ≠ old.slots := fun heq => hne (by rw [heq])
        have hjoin := rank_joinSlots_le old.slots f.slots
        have hwiden := (rank_widenSlots_le old.slots f.slots hlen).2 hne'
        simp only [Cell.weight, hc]
        split
        · next hlim => simp only [Frame.rank, Frame.widen]; omega
        · next hlim => simp only [Frame.rank]; omega

theorem total_set {α : Type} (w : α → Nat) (l : List α) (j : Nat) (x y : α) (h : l[j]? = some x) :
    total w (l.set j y) + w x = total w l + w y := by
  induction l generalizing j with
  | nil => simp at h
  | cons a l ih =>
    cases j with
    | zero =>
      simp only [List.getElem?_cons_zero, Option.some.injEq] at h
      subst h
      simp only [List.set_cons_zero, total]; omega
    | succ j =>
      have := ih j (by simpa using h)
      simp only [List.set_cons_succ, total]; omega

theorem countP_set {α : Type} (p : α → Bool) (l : List α) (j : Nat) (x y : α) (h : l[j]? = some x) :
    (l.set j y).countP p + (if p x then 1 else 0) = l.countP p + (if p y then 1 else 0) := by
  induction l generalizing j with
  | nil => simp at h
  | cons a l ih =>
    cases j with
    | zero =>
      simp only [List.getElem?_cons_zero, Option.some.injEq] at h
      subst h
      simp only [List.set_cons_zero, List.countP_cons]; omega
    | succ j =>
      have := ih j (by simpa using h)
      simp only [List.set_cons_succ, List.countP_cons]; omega

theorem lighter_set {limit : Nat} {cells : List Cell} {j : Nat} {c c' : Cell} (hj : cells[j]? = some c)
    (hsome : c'.frame.isSome) (h : c.frame = none ∨ c'.weight limit < c.weight limit) :
    Lighter limit (cells.set j c') cells := by
  have hcount := countP_set (fun c : Cell => c.frame.isNone) cells j c c' hj
  have hsum := total_set (Cell.weight limit) cells j c c' hj
  have hnone : c'.frame.isNone = false := by cases hf : c'.frame <;> simp_all
  unfold Lighter absent weight
  rcases h with h | h
  · simp only [h, hnone] at hcount
    simp only [Option.isNone_none, if_true, Bool.false_eq_true, if_false] at hcount
    omega
  · cases hf : c.frame with
    | none => simp only [Cell.weight, hf] at h; omega
    | some f =>
      simp only [hf, hnone, Option.isNone_some, Bool.false_eq_true, if_false] at hcount
      omega

/-- A delivery changes nothing, or it makes the cells lighter. -/
theorem Delivery.put_eq_ok {limit pos j : Nat} {d d' : Delivery} {f : Frame} (h : d.put limit pos j f = .ok d') :
    (d'.cells = d.cells ∧ d'.restart = d.restart) ∨ Lighter limit d'.cells d.cells := by
  unfold Delivery.put at h
  split at h
  · cases h; exact .inl ⟨rfl, rfl⟩
  · next c hc =>
    cases hm : c.meet limit f with
    | error e => rw [hm] at h; cases h
    | ok r =>
      rw [hm] at h
      simp only [bind, Except.bind] at h
      cases r with
      | none => cases h; exact .inl ⟨rfl, rfl⟩
      | some c' =>
        cases h
        obtain ⟨hsome, hless⟩ := Cell.meet_eq_some hm
        exact .inr (lighter_set hc hsome hless)

theorem Delivery.send_eq_ok {t : Task} {pos : Nat} {a : Address} {d d' : Delivery} {s : Send}
    (h : Delivery.send t pos a d s = .ok d') :
    (d'.cells = d.cells ∧ d'.restart = d.restart) ∨ Lighter t.limit d'.cells d.cells := by
  unfold Delivery.send at h
  split at h
  · unfold Delivery.leave at h
    split at h
    · cases h; exact .inl ⟨rfl, rfl⟩
    · next g _ =>
      cases hj : g.join s.frame with
      | error e => rw [hj] at h; cases h
      | ok k => rw [hj] at h; cases h; exact .inl ⟨rfl, rfl⟩
  · cases hf : t.flow.follow t.unit a s.edge with
    | error e => rw [hf] at h; cases h
    | ok r =>
      rw [hf] at h
      cases r with
      | none => cases h; exact .inl ⟨rfl, rfl⟩
      | some j => exact Delivery.put_eq_ok h

theorem Delivery.foldlM_send_eq_ok {t : Task} {pos : Nat} {a : Address} {sends : List Send} {d d' : Delivery}
    (h : sends.foldlM (Delivery.send t pos a) d = .ok d') :
    (d'.cells = d.cells ∧ d'.restart = d.restart) ∨ Lighter t.limit d'.cells d.cells := by
  induction sends generalizing d with
  | nil => cases h; exact .inl ⟨rfl, rfl⟩
  | cons s sends ih =>
    rw [List.foldlM_cons] at h
    cases hs : Delivery.send t pos a d s with
    | error e => rw [hs] at h; cases h
    | ok d₁ =>
      rw [hs] at h
      rcases Delivery.send_eq_ok hs with ⟨hc, hr⟩ | h1
      · rcases ih h with ⟨hc', hr'⟩ | h2
        · exact .inl ⟨hc'.trans hc, hr'.trans hr⟩
        · exact .inr (hc ▸ h2)
      · rcases ih h with ⟨hc', -⟩ | h2
        · exact .inr (hc' ▸ h1)
        · exact .inr (h2.trans h1)

/-- A step goes on to the next point, or it makes the cells lighter. -/
theorem Walk.step_eq_ok {t : Task} {w w' : Walk} {p : Point} (h : w.step t p = .ok w') :
    (w'.cells = w.cells ∧ w'.pos = w.pos + 1) ∨ Lighter t.limit w'.cells w.cells := by
  unfold Walk.step at h
  split at h
  · cases h; exact .inl ⟨rfl, rfl⟩
  · split at h
    · cases h
    · cases h
    · split at h
      · cases h
      · next d hd =>
        cases h
        rcases Delivery.foldlM_send_eq_ok hd with ⟨hc, hr⟩ | hl
        · exact .inl ⟨hc, by simp [hr]⟩
        · exact .inr hl

namespace Walk

/-- Walk on until every point is behind. -/
def run (t : Task) (w : Walk) : Except AnalysisError Walk :=
  match _hp : t.flow.points[w.pos]? with
  | none => .ok w
  | some p =>
    match _hs : w.step t p with
    | .error e => .error e
    | .ok w' => run t w'
termination_by (absent w.cells, weight t.limit w.cells, t.flow.points.length - w.pos)
decreasing_by
  have hlt : w.pos < t.flow.points.length := (List.getElem?_eq_some_iff.1 _hp).1
  rcases step_eq_ok _hs with ⟨hc, hpos⟩ | hl | ⟨ha, hw⟩
  · rw [hc, hpos]
    exact Prod.Lex.right _ (Prod.Lex.right _ (by omega))
  · exact Prod.Lex.left _ _ hl
  · rw [ha]
    exact Prod.Lex.right _ (Prod.Lex.left _ _ hw)

end Walk

end Narrowing
