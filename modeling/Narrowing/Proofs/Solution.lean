import Mathlib.Logic.Relation
import Narrowing.Analysis.Result
import Narrowing.Proofs.Walk

/-!
# Solutions of the flow equations

A frame map solves the equations of a block if the first frame is below the one at the entry and every frame that a
code sends is below the one at the place it leads to.  A walk that ends has found a solution (`Walk.isSolution`).  As
long as no frame was replaced more often than the limit allows, nothing was widened, and the solution is below all
others (`Walk.least`).  There is only one such map, so neither the order of the visits nor the limit has a say in it.
-/

namespace Narrowing

open Relation

/-! ### Frame maps -/

/-- A frame, or none, for each place. -/
def FrameMap := Address → Option Frame

namespace FrameMap

instance : LE FrameMap := ⟨fun F G => ∀ a, FrameBelow (F a) (G a)⟩

protected theorem le_antisymm {F G : FrameMap} (h : F ≤ G) (h' : G ≤ F) : F = G :=
  funext fun a => (h a).antisymm (h' a)

/-- One frame at the entry. -/
def start (g : Flow) (f : Frame) : FrameMap := fun a => if Flow.entry? g = some a then some f else none

/-- The map with another frame at one place. -/
def update (F : FrameMap) (b : Address) (f : Frame) : FrameMap := fun a => if a = b then some f else F a

end FrameMap

/-- The frames of the points in address order, by place. -/
def Flow.frameMap (g : Flow) (frames : List (Option Frame)) : FrameMap :=
  fun a => (g.order? a).bind fun i => (frames[i]?).join

/-- The frames of a walk, by place. -/
def Walk.frameMap (t : Task) (w : Walk) : FrameMap := t.flow.frameMap (w.cells.map Cell.frame)

theorem join_getElem?_map (cells : List Cell) (i : Nat) : ((cells.map Cell.frame)[i]?).join = frameAt cells i := by
  unfold frameAt
  rw [List.getElem?_map]
  cases cells[i]? <;> rfl

theorem Walk.frameMap_of_order? {t : Task} {w : Walk} {a : Address} {i : Nat} (h : t.flow.order? a = some i) :
    w.frameMap t a = frameAt w.cells i := by
  unfold Walk.frameMap Flow.frameMap
  rw [h]
  exact join_getElem?_map w.cells i

theorem Walk.frameMap_eq_some {t : Task} {w : Walk} {a : Address} {f : Frame} (h : w.frameMap t a = some f) :
    ∃ i, t.flow.order? a = some i ∧ frameAt w.cells i = some f := by
  obtain ⟨i, hi, hf⟩ := Option.bind_eq_some_iff.1 h
  rw [join_getElem?_map] at hf
  exact ⟨i, hi, hf⟩

/-! ### The equations -/

/-- The map is at least `init` at the entry and at least what is sent everywhere else. -/
structure IsSolution (t : Task) (init : Frame) (F : FrameMap) : Prop where
  entry : ∀ a, Flow.entry? t.flow = some a → FrameBelow (some init) (F a)
  closed : ∀ a c f ss s b, t.flow.codeAt? a = some c → F a = some f → c.transfer t.isInteger f = .ok ss → s ∈ ss →
    t.flow.target? a s.edge = some b → FrameBelow (some s.frame) (F b)

/-- What is sent from below a solution arrives below it. -/
theorem IsSolution.sends_below {t : Task} {init : Frame} {G : FrameMap} (hG : IsSolution t init G) {a b : Address}
    {c : Code} {f : Frame} {ss : List Send} {s : Send} (hc : t.flow.codeAt? a = some c)
    (hf : FrameBelow (some f) (G a)) (hss : c.transfer t.isInteger f = .ok ss) (hs : s ∈ ss)
    (hb : t.flow.target? a s.edge = some b) : FrameBelow (some s.frame) (G b) := by
  obtain ⟨g, hg, hle⟩ := FrameBelow.some_left.1 hf
  obtain ⟨ts, hts⟩ := exists_transfer_mono hle hss
  obtain ⟨s', hs', hedge, hframe⟩ := Sends.mono hle ((mem_transfer hss s).1 hs)
  have hsent := hG.closed a c g ts s' b hc hg hts ((mem_transfer hts s').2 hs') (hedge ▸ hb)
  exact (FrameBelow.some_some.2 hframe).trans hsent

/-! ### Visits in any order -/

/-- The frame where another one arrives. -/
def arrive (o : Option Frame) (f : Frame) : Except Fault Frame :=
  match o with
  | none => .ok f
  | some g => g.join f

/-- One delivery: a code sends from a frame that is at its place, or was there before, and what it sends is joined
with the frame at the place it leads to. -/
inductive Delivers (t : Task) : FrameMap → FrameMap → Prop
  | intro {F a c f ss s b g} (hc : t.flow.codeAt? a = some c) (hf : FrameBelow (some f) (F a))
    (hss : c.transfer t.isInteger f = .ok ss) (hs : s ∈ ss) (hb : t.flow.target? a s.edge = some b)
    (hg : arrive (F b) s.frame = .ok g) : Delivers t F (F.update b g)

theorem arrive_below {o o' : Option Frame} {f g : Frame} (h : arrive o f = .ok g) (ho : FrameBelow o o')
    (hf : FrameBelow (some f) o') : FrameBelow (some g) o' := by
  cases o with
  | none => cases h; exact hf
  | some old =>
    obtain ⟨k, rfl, hle⟩ := FrameBelow.some_left.1 hf
    exact FrameBelow.some_some.2 (Frame.join_le h (FrameBelow.some_some.1 ho) hle)

theorem Delivers.le_solution {t : Task} {init : Frame} {F F' G : FrameMap} (hG : IsSolution t init G)
    (h : Delivers t F F') (hF : F ≤ G) : F' ≤ G := by
  obtain ⟨hc, hf, hss, hs, hb, hg⟩ := h
  have hsent := hG.sends_below hc (hf.trans (hF _)) hss hs hb
  intro x
  unfold FrameMap.update
  split
  · next hx => exact hx ▸ arrive_below hg (hF _) hsent
  · exact hF x

/-- Deliveries, in whatever order, do not lead above a solution. -/
theorem IsSolution.deliveries_le {t : Task} {init : Frame} {F G : FrameMap} (hG : IsSolution t init G)
    (h : ReflTransGen (Delivers t) (.start t.flow init) F) : F ≤ G := by
  induction h with
  | refl =>
    intro a
    unfold FrameMap.start
    split
    · next ha => exact hG.entry a ha
    · exact FrameBelow.none _
  | tail _ hs ih => exact hs.le_solution hG ih

/-! ### The frames of a walk -/

/-- A walk that gets behind the last point in some number of steps ends there. -/
theorem Task.run_eq_ok {t : Task} {f : Frame} {w : Walk} (n : Nat)
    (h : ((Walk.start t.flow.points.length f).runFor t n).toOption = some w)
    (hend : t.flow.points[w.pos]? = none) : t.run f = .ok w := by
  unfold Task.run
  rw [Walk.run_eq_runFor_bind t n]
  cases hr : (Walk.start t.flow.points.length f).runFor t n with
  | error e => rw [hr] at h; cases h
  | ok v =>
    rw [hr] at h
    cases h
    exact Walk.run_of_none hend

section Walk

/-- Every frame is below the one that the map has at its place. -/
def CellsBelow (g : Flow) (cells : List Cell) (G : FrameMap) : Prop :=
  ∀ (i : Nat) (p : Point), g.points[i]? = some p → FrameBelow (frameAt cells i) (G p.address)

/-- No frame was replaced more often than the limit allows. -/
def Unwidened (limit : Nat) (cells : List Cell) : Prop := ∀ c ∈ cells, c.changes ≤ limit

theorem Grown.unwidened {limit : Nat} {cells cells' : List Cell} (h : Grown cells cells')
    (hlimit : Unwidened limit cells') : Unwidened limit cells := by
  intro c hc
  obtain ⟨i, hi⟩ := List.getElem?_of_mem hc
  obtain ⟨c', hc', hle⟩ := h.2 i c hi
  exact Nat.le_trans hle.2 (hlimit c' (List.mem_of_getElem? hc'))

variable {t : Task} {G : FrameMap}

theorem Delivery.send_cellsBelow {pos : Nat} {a : Address} {d d' : Delivery} {s : Send}
    (h : Delivery.send t pos a d s = .ok d') (hlimit : Unwidened t.limit d'.cells)
    (hs : ∀ b, t.flow.target? a s.edge = some b → FrameBelow (some s.frame) (G b))
    (hd : CellsBelow t.flow d.cells G) : CellsBelow t.flow d'.cells G := by
  rcases Delivery.send_cases h with ⟨-, h⟩ | ⟨-, -, rfl⟩ | ⟨j, -, hj, h⟩
  · obtain ⟨g, rfl, -, -⟩ := Delivery.leave_eq_ok h
    exact hd
  · exact hd
  · rcases Delivery.put_cases h with ⟨rfl, -⟩ | ⟨c, c', hc, hm, rfl⟩
    · exact hd
    · intro i p hp
      by_cases hji : j = i
      · subst hji
        obtain ⟨b, hb, hbj⟩ := Flow.target?_of_follow hj
        obtain ⟨q, hq, rfl, -⟩ := Flow.order?_eq_some hbj
        rw [hp] at hq
        cases hq
        have hlt : j < d.cells.length := (List.getElem?_eq_some_iff.1 hc).1
        have hold : FrameBelow c.frame (G p.address) := by
          have hframe := hd j p hp
          unfold frameAt at hframe
          rw [hc] at hframe
          exact hframe
        rw [frameAt_set_self hlt]
        exact Cell.meet_below hm (hlimit c' (List.mem_set hlt c')) hold (hs _ hb)
      · rw [frameAt_set_ne hji]
        exact hd i p hp

theorem Delivery.foldlM_send_cellsBelow {pos : Nat} {a : Address} {sends : List Send} {d d' : Delivery}
    (h : sends.foldlM (Delivery.send t pos a) d = .ok d') (hlimit : Unwidened t.limit d'.cells)
    (hs : ∀ s ∈ sends, ∀ b, t.flow.target? a s.edge = some b → FrameBelow (some s.frame) (G b))
    (hd : CellsBelow t.flow d.cells G) : CellsBelow t.flow d'.cells G := by
  -- the counts only grow, so what kept to the limit at the end kept to it all along
  refine foldlM_induction (motive := fun e => Unwidened t.limit e.cells → CellsBelow t.flow e.cells G)
    (fun e s hmem e' he hbelow hlimit' => ?_) h (fun _ => hd) hlimit
  have hbefore : Unwidened t.limit e.cells := (Delivery.send_extends he).grown.unwidened hlimit'
  exact Delivery.send_cellsBelow he hlimit' (hs s hmem) (hbelow hbefore)

end Walk

section Block

variable {unit : String} {vars : List Variable} {maxJoins : Int} {b : Option Block} {init : Frame} {w : Walk}

theorem Walk.step_cellsBelow {G : FrameMap} (hG : IsSolution (.ofBlock unit vars maxJoins b) init G) {w' : Walk}
    {p : Point} (hp : (Flow.ofBlock b).points[w.pos]? = some p) (h : w.step (.ofBlock unit vars maxJoins b) p = .ok w')
    (hlimit : Unwidened (joinLimit maxJoins) w'.cells) (hw : CellsBelow (.ofBlock b) w.cells G) :
    CellsBelow (.ofBlock b) w'.cells G := by
  rcases Walk.step_cases h with ⟨-, rfl⟩ | ⟨f, ss, d, hf, hss, hd, rfl⟩
  · exact hw
  · refine Delivery.foldlM_send_cellsBelow hd hlimit (fun s hs a' ha' => ?_) hw
    have hbelow : FrameBelow (some f) (G p.address) := hf ▸ hw w.pos p hp
    exact hG.sends_below (Flow.codeAt?_address hp) hbelow hss hs ha'

theorem frameAt_start (points i : Nat) :
    frameAt (Walk.start points init).cells i = if i = 0 ∧ 0 < points then some init else none := by
  unfold frameAt Walk.start
  cases points with
  | zero => simp
  | succ n =>
    cases i with
    | zero => simp
    | succ i =>
      simp only [List.replicate_succ, List.set_cons_zero, List.getElem?_cons_succ, List.getElem?_replicate]
      split <;> simp

theorem Task.init_below_of_run {t : Task} (h : t.run init = .ok w) (hpos : 0 < t.flow.points.length) :
    FrameBelow (some init) (frameAt w.cells 0) := by
  have hgrown := (Walk.run_grown h).frameAt 0
  rw [frameAt_start, if_pos ⟨rfl, hpos⟩] at hgrown
  exact hgrown

variable (h : (Task.ofBlock unit vars maxJoins b).run init = .ok w)
include h

theorem length_cells_of_run : w.cells.length = (Flow.ofBlock b).points.length := by
  rw [(Walk.run_grown h).1]
  simp [Walk.start, Task.ofBlock]

/-- **A walk that ends has delivered everything**: each code that a frame reaches can be followed, and what it sends is
below the frame at the place it leads to or, if it leaves, below the frame that left. -/
theorem Walk.settled_of_run {a : Address} {c : Code} {f : Frame} (hc : (Flow.ofBlock b).codeAt? a = some c)
    (hf : w.frameMap (.ofBlock unit vars maxJoins b) a = some f) :
    ∃ ss, c.transfer (Task.ofBlock unit vars maxJoins b).isInteger f = .ok ss ∧ ∀ s ∈ ss,
      (∀ a', (Flow.ofBlock b).target? a s.edge = some a' →
        FrameBelow (some s.frame) (w.frameMap (.ofBlock unit vars maxJoins b) a')) ∧
      (s.edge = .exit → FrameBelow (some s.frame) w.exit) := by
  obtain ⟨i, hi, hp⟩ := Flow.exists_order? hc
  rw [Walk.frameMap_of_order? hi] at hf
  obtain ⟨ss, hss, hall⟩ := Walk.run_settled h rfl i ⟨a, c⟩ f hp hf
  refine ⟨ss, hss, fun s hs => ⟨fun a' ha' => ?_, (hall s hs).left⟩⟩
  have hvalid : (Flow.ofBlock b).isValid a' = true := Flow.isValid_target? (Flow.isValid_of_codeAt? hc) ha'
  obtain ⟨j, hj⟩ := Flow.isValid_iff_order?.1 hvalid
  obtain ⟨q, hq, -, -⟩ := Flow.order?_eq_some hj
  have hlt : j < w.cells.length := length_cells_of_run h ▸ (List.getElem?_eq_some_iff.1 hq).1
  rw [Walk.frameMap_of_order? hj]
  exact (hall s hs).arrived a' j ha' hj hlt

theorem Walk.entry_of_run {a : Address} (ha : Flow.entry? (.ofBlock b) = some a) :
    FrameBelow (some init) (w.frameMap (.ofBlock unit vars maxJoins b) a) := by
  rw [Walk.frameMap_of_order? (Flow.order?_of_entry ha)]
  exact Task.init_below_of_run h (Flow.length_pos_of_entry ha)

theorem Walk.isSolution : IsSolution (.ofBlock unit vars maxJoins b) init (w.frameMap (.ofBlock unit vars maxJoins b)) where
  entry a ha := Walk.entry_of_run h ha
  closed a c f ss s a' hc hf hss hs ha' := by
    obtain ⟨ts, hts, hall⟩ := Walk.settled_of_run h hc hf
    rw [hss] at hts
    cases hts
    exact (hall s hs).1 a' ha'

/-- A walk that never widened is below every solution. -/
theorem Walk.least (hlimit : Unwidened (joinLimit maxJoins) w.cells) {G : FrameMap}
    (hG : IsSolution (.ofBlock unit vars maxJoins b) init G) : w.frameMap (.ofBlock unit vars maxJoins b) ≤ G := by
  have hstart : CellsBelow (.ofBlock b) (Walk.start (Flow.ofBlock b).points.length init).cells G := by
    intro i p hp
    rw [frameAt_start]
    split
    · next hi =>
      obtain ⟨rfl, -⟩ := hi
      refine hG.entry p.address ?_
      show (Flow.ofBlock b).points.head?.map Point.address = some p.address
      rw [List.head?_eq_getElem?, hp]
      rfl
    · exact FrameBelow.none _
  obtain ⟨hbelow, -⟩ := Walk.run_induction (t := .ofBlock unit vars maxJoins b)
    (motive := fun v => Unwidened (joinLimit maxJoins) v.cells → CellsBelow (.ofBlock b) v.cells G)
    (fun v p v' hp hs hv hv' => Walk.step_cellsBelow hG hp hs hv' (hv ((Walk.step_grown hs).1.unwidened hv')))
    h (fun _ => hstart)
  intro a f hf
  obtain ⟨i, hi, hframe⟩ := Walk.frameMap_eq_some hf
  obtain ⟨p, hp, rfl, -⟩ := Flow.order?_eq_some hi
  exact hbelow hlimit i p hp f hframe

omit h in
theorem isSolution_ofBlock_iff {maxJoins' : Int} {F : FrameMap} :
    IsSolution (.ofBlock unit vars maxJoins' b) init F ↔ IsSolution (.ofBlock unit vars maxJoins b) init F :=
  ⟨fun hF => ⟨hF.entry, hF.closed⟩, fun hF => ⟨hF.entry, hF.closed⟩⟩

/-- **The walk solves the flow equations, and best when it does not widen.**  The frames at its end are a solution, from
which every code can be followed.  If no frame was replaced more often than the limit allows, they are below every
solution; so deliveries in any order that end in a solution end in these frames, and so does a walk with another limit
that keeps to it. -/
theorem walk_solves_flow_equations :
    IsSolution (.ofBlock unit vars maxJoins b) init (w.frameMap (.ofBlock unit vars maxJoins b)) ∧
    (∀ a c f, (Flow.ofBlock b).codeAt? a = some c → w.frameMap (.ofBlock unit vars maxJoins b) a = some f →
      ∃ ss, c.transfer (Task.ofBlock unit vars maxJoins b).isInteger f = .ok ss) ∧
    ((∀ c ∈ w.cells, c.changes ≤ joinLimit maxJoins) →
      (∀ G, IsSolution (.ofBlock unit vars maxJoins b) init G →
        w.frameMap (.ofBlock unit vars maxJoins b) ≤ G) ∧
      (∀ F, ReflTransGen (Delivers (.ofBlock unit vars maxJoins b)) (.start (.ofBlock b) init) F →
        IsSolution (.ofBlock unit vars maxJoins b) init F → F = w.frameMap (.ofBlock unit vars maxJoins b)) ∧
      ∀ maxJoins' w', (Task.ofBlock unit vars maxJoins' b).run init = .ok w' →
        (∀ c ∈ w'.cells, c.changes ≤ joinLimit maxJoins') →
        w'.frameMap (.ofBlock unit vars maxJoins' b) = w.frameMap (.ofBlock unit vars maxJoins b)) := by
  have hsol := Walk.isSolution h
  refine ⟨hsol, fun a c f hc hf => ?_, fun hlimit => ⟨fun G hG => Walk.least h hlimit hG, ?_, ?_⟩⟩
  · obtain ⟨ss, hss, -⟩ := Walk.settled_of_run h hc hf
    exact ⟨ss, hss⟩
  · intro F hF hFsol
    exact FrameMap.le_antisymm (hsol.deliveries_le hF) (Walk.least h hlimit hFsol)
  · intro maxJoins' w' h' hlimit'
    refine FrameMap.le_antisymm ?_ ?_
    · exact Walk.least h' hlimit' (isSolution_ofBlock_iff.2 hsol)
    · exact Walk.least h hlimit (isSolution_ofBlock_iff.1 (Walk.isSolution h'))

end Block

/-- A block that sets its first variable and compares it again. -/
def backEdge : Block :=
  [.const 1 (.int 3), .label "again", .branch 0 .lt 1 "out", .const 0 (.int 1), .goto "again", .label "out", .ret []]

/-- The first variable is between 5 and 9. -/
def backEdgeFrame : Frame := ⟨[some ⟨.fin 5, .fin 9, by decide⟩, none]⟩

theorem walk_solves_flow_equations_back_edge :
    ∃ w, (Task.ofBlock "f" [] 0 (some backEdge)).run backEdgeFrame = .ok w ∧
      (∀ c ∈ w.cells, c.changes ≤ joinLimit 0) ∧ (∃ c ∈ w.cells, c.changes = 1) ∧
      ∀ G, IsSolution (.ofBlock "f" [] 0 (some backEdge)) backEdgeFrame G →
        w.frameMap (.ofBlock "f" [] 0 (some backEdge)) ≤ G := by
  obtain ⟨w, hw, hend, hlimit, hback⟩ : ∃ w : Walk,
      ((Walk.start 7 backEdgeFrame).runFor (.ofBlock "f" [] 0 (some backEdge)) 12).toOption = some w ∧
      (Flow.ofBlock (some backEdge)).points[w.pos]? = none ∧ (∀ c ∈ w.cells, c.changes ≤ joinLimit 0) ∧
      ∃ c ∈ w.cells, c.changes = 1 := ⟨_, rfl, rfl, by decide, by decide⟩
  have hrun := Task.run_eq_ok 12 hw hend
  exact ⟨w, hrun, hlimit, hback, ((walk_solves_flow_equations hrun).2.2 hlimit).1⟩

end Narrowing
