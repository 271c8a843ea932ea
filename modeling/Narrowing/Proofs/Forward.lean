import Narrowing.Proofs.Reach

/-!
# Blocks without back edges

If every edge of a block leads to a later point, the walk never goes back (`Walk.step_forward`): it passes each point
once, in address order, and a point that it passes has its last frame by then.  What the walk knows of a point is at
any time the join of the frames that the points behind sent to it (`Cell.Received`), as long as there are not so many of
them that a change is widened.
-/

namespace Narrowing

/-! ### Edges -/

namespace Flow

/-- The edges of some points: from each in turn to its successors, as often as its code names them. -/
def edgesFrom (g : Flow) (ps : List Point) : List (Address × Address) :=
  ps.flatMap fun p => ((g.successors p.address).toOption.getD []).map (p.address, ·)

def edges (g : Flow) : List (Address × Address) := g.edgesFrom g.points

/-- Every edge leads to a point that is later in address order. -/
def IsForward (g : Flow) : Prop := ∀ e ∈ g.edges, ∀ i ∈ g.order? e.1, ∃ j ∈ g.order? e.2, i < j

instance (g : Flow) : Decidable g.IsForward := inferInstanceAs (Decidable (∀ e ∈ g.edges, _))

/-- The number of edges that lead to a place. -/
def inDegree (g : Flow) (a : Address) : Nat := g.edges.countP (·.2 == a)

/-- The frames among those sent from a place that go to another one. -/
def framesTo (g : Flow) (a b : Address) (ss : List Send) : List Frame :=
  ss.filterMap fun s => if g.target? a s.edge = some b then some s.frame else none

variable {g : Flow} {a b : Address}

theorem mem_edges {p : Point} {as : List Address} (hp : p ∈ g.points) (has : g.successors p.address = .ok as)
    (hb : b ∈ as) : (p.address, b) ∈ g.edges := by
  refine List.mem_flatMap.2 ⟨p, hp, ?_⟩
  rw [has]
  exact List.mem_map_of_mem hb

theorem framesTo_cons (s : Send) (ss : List Send) :
    g.framesTo a b (s :: ss) = (if g.target? a s.edge = some b then [s.frame] else []) ++ g.framesTo a b ss := by
  unfold framesTo
  rw [List.filterMap_cons]
  split <;> simp_all

theorem length_framesTo (ss : List Send) : (g.framesTo a b ss).length = (g.targets a ss).count b := by
  unfold framesTo targets
  rw [List.length_filterMap_eq_countP, List.count_filterMap]
  refine List.countP_congr fun s _ => ?_
  by_cases hs : g.target? a s.edge = some b <;> simp [hs]

/-- What forward code sends goes to later points. -/
theorem IsForward.lt_of_sent {b : Option Block} (hg : (ofBlock b).IsForward) {i j : Nat} {p : Point}
    {isInteger : Slot → Bool} {f : Frame} {ss : List Send} {s : Send} {a : Address}
    (hp : (ofBlock b).points[i]? = some p) (hss : p.code.transfer isInteger f = .ok ss) (hs : s ∈ ss)
    (ha : (ofBlock b).target? p.address s.edge = some a) (hj : (ofBlock b).order? a = some j) : i < j := by
  obtain ⟨as, has, hsub⟩ := targets_sublist_successors (codeAt?_address hp) hss
  have hedge := mem_edges (List.mem_of_getElem? hp) has (hsub.subset (mem_targets_of_mem hs ha))
  obtain ⟨k, hk, hlt⟩ := hg _ hedge i (order?_address hp)
  rw [show (ofBlock b).order? a = some k from hk] at hj
  cases hj
  exact hlt

end Flow

/-! ### The walk goes forward -/

theorem Delivery.send_restart {t : Task} {pos : Nat} {a : Address} {d d' : Delivery} {s : Send}
    (h : Delivery.send t pos a d s = .ok d')
    (hs : ∀ b j, t.flow.target? a s.edge = some b → t.flow.order? b = some j → pos < j) (hd : d.restart = none) :
    d'.restart = none := by
  rcases Delivery.send_cases h with ⟨-, h⟩ | ⟨-, -, rfl⟩ | ⟨j, -, hj, h⟩
  · obtain ⟨g, rfl, -, -⟩ := Delivery.leave_eq_ok h
    exact hd
  · exact hd
  · obtain ⟨b, hb, hbj⟩ := Flow.target?_of_follow hj
    rcases Delivery.put_cases h with ⟨rfl, -⟩ | ⟨c, c', -, -, rfl⟩
    · exact hd
    · show (if j ≤ pos then _ else d.restart) = none
      rw [if_neg (Nat.not_le.2 (hs b j hb hbj))]
      exact hd

namespace Walk

/-- The transfers of the walk, in their order: the points that it walks with the frames that it finds there. -/
def trace (t : Task) : Nat → Walk → List (Point × Frame)
  | 0, _ => []
  | n + 1, w =>
    match t.flow.points[w.pos]? with
    | none => []
    | some p => ((frameAt w.cells w.pos).map (p, ·)).toList ++ (w.step t p).toOption.elim [] (trace t n)

section Block

variable {unit : String} {vars : List Variable} {maxJoins : Int} {b : Option Block} {init : Frame} {w w' : Walk}
  (hg : (Flow.ofBlock b).IsForward)
include hg

/-- A step over forward code goes on to the next point, and it leaves the frames up to there as they are. -/
theorem step_forward {p : Point} (hp : (Flow.ofBlock b).points[w.pos]? = some p)
    (h : w.step (.ofBlock unit vars maxJoins b) p = .ok w') :
    w'.pos = w.pos + 1 ∧ ∀ i ≤ w.pos, frameAt w'.cells i = frameAt w.cells i := by
  rcases step_cases h with ⟨-, rfl⟩ | ⟨f, ss, d, hf, hss, hd, rfl⟩
  · exact ⟨rfl, fun _ _ => rfl⟩
  · have hrestart : d.restart = none :=
      foldlM_induction (motive := fun e => e.restart = none)
        (fun e s hs e' he hnone => Delivery.send_restart he (fun a j ha hj => hg.lt_of_sent hp hss hs ha hj) hnone)
        hd rfl
    have hback : d.back w.pos = w.pos + 1 := by rw [Delivery.back, hrestart]; rfl
    exact ⟨hback, fun i hi => (Delivery.foldlM_send hd).1.kept i hi (hback ▸ Nat.lt_succ_of_le hi)⟩

/-- Once the walk has come to a point, the frame there stays. -/
theorem run_kept (h : w.run (.ofBlock unit vars maxJoins b) = .ok w') :
    ∀ i ≤ w.pos, frameAt w'.cells i = frameAt w.cells i := by
  refine (run_induction (motive := fun v => w.pos ≤ v.pos ∧ ∀ i ≤ w.pos, frameAt v.cells i = frameAt w.cells i)
    (fun v p v' hp hs hv => ?_) h ⟨Nat.le_refl _, fun _ _ => rfl⟩).1.2
  obtain ⟨hle, hkept⟩ := hv
  obtain ⟨hpos, hframes⟩ := step_forward hg hp hs
  exact ⟨by omega, fun i hi => (hframes i (Nat.le_trans hi hle)).trans (hkept i hi)⟩

/-- A walk over forward code is at each point once. -/
theorem runFor_forward (h : w.run (.ofBlock unit vars maxJoins b) = .ok w') {k : Nat}
    (hk : w.pos + k ≤ (Flow.ofBlock b).points.length) :
    ∃ v, w.runFor (.ofBlock unit vars maxJoins b) k = .ok v ∧ v.pos = w.pos + k := by
  induction k generalizing w with
  | zero => exact ⟨w, rfl, rfl⟩
  | succ k ih =>
    have hp : (Flow.ofBlock b).points[w.pos]? = some _ := List.getElem?_eq_getElem (by omega)
    rw [run_of_some hp] at h
    obtain ⟨w₁, hw₁, h⟩ := bind_eq_ok.1 h
    obtain ⟨hpos, -⟩ := step_forward hg hp hw₁
    obtain ⟨v, hv, hvpos⟩ := ih h (by omega)
    refine ⟨v, ?_, by omega⟩
    rw [runFor, show (Task.ofBlock unit vars maxJoins b).flow.points[w.pos]? = some _ from hp]
    exact bind_eq_ok.2 ⟨w₁, hw₁, hv⟩

/-- A walk over forward code transfers each point that has a frame in the end, from that frame. -/
theorem trace_forward (h : w.run (.ofBlock unit vars maxJoins b) = .ok w') {n : Nat}
    (hn : (Flow.ofBlock b).points.length ≤ w.pos + n) :
    w.trace (.ofBlock unit vars maxJoins b) n = ((Flow.ofBlock b).points.drop w.pos).filterMap fun p =>
      (w'.frameMap (.ofBlock unit vars maxJoins b) p.address).map (p, ·) := by
  induction n generalizing w with
  | zero =>
    rw [List.drop_eq_nil_of_le (by omega)]
    rfl
  | succ n ih =>
    unfold trace
    cases hp : (Flow.ofBlock b).points[w.pos]? with
    | none =>
      rw [show (Task.ofBlock unit vars maxJoins b).flow.points[w.pos]? = none from hp,
        List.drop_eq_nil_of_le (List.getElem?_eq_none_iff.1 hp)]
      rfl
    | some p =>
      have hkept := run_kept hg h w.pos (Nat.le_refl _)
      rw [run_of_some hp] at h
      obtain ⟨w₁, hw₁, h⟩ := bind_eq_ok.1 h
      obtain ⟨hpos, -⟩ := step_forward hg hp hw₁
      have hframe : w'.frameMap (.ofBlock unit vars maxJoins b) p.address = frameAt w'.cells w.pos :=
        frameMap_of_order? (Flow.order?_address hp)
      obtain ⟨hlt, hget⟩ := List.getElem?_eq_some_iff.1 hp
      rw [show (Task.ofBlock unit vars maxJoins b).flow.points[w.pos]? = some p from hp,
        List.drop_eq_getElem_cons hlt, hget, List.filterMap_cons, hframe, hkept]
      dsimp only
      rw [hw₁, Except.toOption, Option.elim_some, ih h (by omega), hpos]
      cases frameAt w.cells w.pos <;> rfl

end Block

end Walk

/-! ### What arrives at a point -/

namespace Task

/-- The frames that the code of a point sends to a place, from the frame at the point. -/
def sentTo (t : Task) (p : Point) (o : Option Frame) (b : Address) : List Frame :=
  o.elim [] fun f => (p.code.transfer t.isInteger f).toOption.elim [] (t.flow.framesTo p.address b)

/-- The frames that some points send to a place, in turn. -/
def arrivals (t : Task) (F : FrameMap) (ps : List Point) (b : Address) : List Frame :=
  ps.flatMap fun p => t.sentTo p (F p.address) b

variable {t : Task} {F G : FrameMap} {b : Address}

theorem arrivals_congr {ps : List Point} (h : ∀ p ∈ ps, F p.address = G p.address) :
    t.arrivals F ps b = t.arrivals G ps b := by
  induction ps with
  | nil => rfl
  | cons p ps ih =>
    obtain ⟨hp, hps⟩ := List.forall_mem_cons.1 h
    unfold arrivals at ih ⊢
    rw [List.flatMap_cons, List.flatMap_cons, hp, ih hps]

theorem length_sentTo_le {p : Point} (hp : t.flow.codeAt? p.address = some p.code) (o : Option Frame) :
    (t.sentTo p o b).length ≤ ((t.flow.successors p.address).toOption.getD []).count b := by
  unfold sentTo
  cases o with
  | none => exact Nat.zero_le _
  | some f =>
    cases hss : p.code.transfer t.isInteger f with
    | error e =>
      rw [Option.elim_some, hss]
      exact Nat.zero_le _
    | ok ss =>
      obtain ⟨as, has, hsub⟩ := Flow.targets_sublist_successors hp hss
      rw [Option.elim_some, hss, has]
      exact Nat.le_trans (Nat.le_of_eq (Flow.length_framesTo ss)) (hsub.count_le b)

theorem length_arrivals_le {ps : List Point} (h : ∀ p ∈ ps, t.flow.codeAt? p.address = some p.code) :
    (t.arrivals F ps b).length ≤ (t.flow.edgesFrom ps).countP (·.2 == b) := by
  induction ps with
  | nil => exact Nat.le_refl _
  | cons p ps ih =>
    obtain ⟨hp, hps⟩ := List.forall_mem_cons.1 h
    have hfirst := length_sentTo_le (b := b) hp (F p.address)
    have hrest := ih hps
    unfold arrivals Flow.edgesFrom at hrest ⊢
    rw [List.flatMap_cons, List.flatMap_cons, List.length_append, List.countP_append, List.countP_map]
    exact Nat.add_le_add hfirst hrest

/-- No more frames arrive at a place than edges lead there. -/
theorem length_arrivals_take_le {block : Option Block} (ht : t.flow = .ofBlock block) (k : Nat) :
    (t.arrivals F (t.flow.points.take k) b).length ≤ t.flow.inDegree b := by
  have hcode : ∀ p ∈ t.flow.points.take k, t.flow.codeAt? p.address = some p.code := by
    intro p hp
    obtain ⟨i, hi⟩ := List.getElem?_of_mem (List.mem_of_mem_take hp)
    rw [ht] at hi ⊢
    exact Flow.codeAt?_address hi
  have hedges : t.flow.edges = t.flow.edgesFrom (t.flow.points.take k) ++ t.flow.edgesFrom (t.flow.points.drop k) := by
    unfold Flow.edges Flow.edgesFrom
    rw [← List.flatMap_append, List.take_append_drop]
  unfold Flow.inDegree
  rw [hedges, List.countP_append]
  exact Nat.le_trans (length_arrivals_le hcode) (Nat.le_add_right _ _)

end Task

/-- A point whose cell this is has been sent the frames: it has their join, and was changed by each but the first at
most. -/
structure Cell.Received (c : Cell) (fs : List Frame) : Prop where
  join_eq : Frame.joinAll fs = .ok c.frame
  changes_le : c.changes ≤ fs.length - 1

theorem Cell.Received.meet {c : Cell} {fs : List Frame} {limit : Nat} {f : Frame} {o : Option Cell} (h : c.Received fs)
    (hlimit : fs.length ≤ limit) (ho : c.meet limit f = .ok o) : (o.getD c).Received (fs ++ [f]) := by
  obtain ⟨hjoin, hchanges⟩ := h
  have hlen : (fs ++ [f]).length = fs.length + 1 := List.length_append
  rcases Cell.meet_eq_ok ho with ⟨hnone, rfl⟩ | ⟨old, new, hold, hnew, hcases⟩
  · rw [hnone] at hjoin
    rw [Frame.joinAll_eq_none.1 hjoin] at hchanges ⊢
    exact ⟨rfl, hchanges⟩
  · rw [hold] at hjoin
    have hconcat := Frame.joinAll_concat hjoin hnew
    have hpos : 0 < fs.length := List.length_pos_iff.2 fun hnil => by rw [hnil] at hjoin; cases hjoin
    rcases hcases with ⟨rfl, rfl⟩ | ⟨-, rfl⟩
    · refine ⟨hold ▸ hconcat, ?_⟩
      rw [Option.getD_none]
      omega
    · -- each change before this one came from a frame behind the first
      have hcount : ¬ limit < c.changes + 1 := by omega
      rw [if_neg hcount]
      refine ⟨hconcat, ?_⟩
      show c.changes + 1 ≤ _
      omega

namespace Delivery

variable {t : Task} {pos j : Nat} {a b : Address} {d d' : Delivery} {c : Cell} {fs : List Frame}

theorem put_meet {limit : Nat} {f : Frame} (h : d.put limit pos j f = .ok d') (hc : d.cells[j]? = some c) :
    ∃ o, c.meet limit f = .ok o ∧ d'.cells[j]? = some (o.getD c) := by
  rcases put_cases h with ⟨rfl, hnone⟩ | ⟨c₁, c', hc₁, hm, rfl⟩
  · exact ⟨none, hnone c hc, hc⟩
  · rw [hc] at hc₁
    cases hc₁
    exact ⟨some c', hm, List.getElem?_set_self (List.getElem?_eq_some_iff.1 hc).1⟩

theorem put_other {limit i : Nat} {f : Frame} (h : d.put limit pos i f = .ok d') (hij : i ≠ j) :
    d'.cells[j]? = d.cells[j]? := by
  rcases put_cases h with ⟨rfl, -⟩ | ⟨c, c', -, -, rfl⟩
  · rfl
  · exact List.getElem?_set_ne hij

theorem send_received {s : Send} (h : send t pos a d s = .ok d') (hb : t.flow.order? b = some j)
    (hc : d.cells[j]? = some c) (hfs : c.Received fs)
    (hlimit : t.flow.target? a s.edge = some b → fs.length ≤ t.limit) :
    ∃ c', d'.cells[j]? = some c' ∧ c'.Received (fs ++ if t.flow.target? a s.edge = some b then [s.frame] else []) := by
  rcases send_cases h with ⟨he, h⟩ | ⟨-, hf, rfl⟩ | ⟨i, -, hi, h⟩
  · obtain ⟨g, rfl, -, -⟩ := leave_eq_ok h
    refine ⟨c, hc, ?_⟩
    rw [he, if_neg nofun, List.append_nil]
    exact hfs
  · refine ⟨c, hc, ?_⟩
    rw [if_neg fun hsb => ?_, List.append_nil]
    · exact hfs
    · rw [Flow.follow_of_target? hsb, hb] at hf
      cases hf
  · obtain ⟨b', hb', hbi⟩ := Flow.target?_of_follow hi
    by_cases hbb : b' = b
    · subst hbb
      rw [hb] at hbi
      cases hbi
      obtain ⟨o, ho, hc'⟩ := put_meet h hc
      rw [if_pos hb']
      exact ⟨_, hc', hfs.meet (hlimit hb') ho⟩
    · have hij : i ≠ j := by
        rintro rfl
        exact hbb (Flow.order?_inj hbi hb)
      refine ⟨c, (put_other h hij).trans hc, ?_⟩
      rw [if_neg fun hsb => hbb (Option.some.inj (hb'.symm.trans hsb)), List.append_nil]
      exact hfs

/-- Behind all sends of a point, another point has received those that go there. -/
theorem foldlM_received {ss : List Send} (h : ss.foldlM (send t pos a) d = .ok d') (hb : t.flow.order? b = some j)
    (hc : d.cells[j]? = some c) (hfs : c.Received fs)
    (hlimit : (fs ++ t.flow.framesTo a b ss).length ≤ t.limit + 1) :
    ∃ c', d'.cells[j]? = some c' ∧ c'.Received (fs ++ t.flow.framesTo a b ss) := by
  induction ss generalizing d c fs with
  | nil =>
    cases h
    exact ⟨c, hc, (List.append_nil fs).symm ▸ hfs⟩
  | cons s ss ih =>
    rw [List.foldlM_cons] at h
    obtain ⟨d₁, hd₁, h⟩ := bind_eq_ok.1 h
    rw [Flow.framesTo_cons, ← List.append_assoc] at hlimit ⊢
    obtain ⟨c₁, hc₁, hfs₁⟩ := send_received hd₁ hb hc hfs fun hsb => by
      rw [if_pos hsb, List.length_append, List.length_append, List.length_singleton] at hlimit
      omega
    exact ih h hc₁ hfs₁ hlimit

end Delivery

/-- The frames that the points behind the walk have sent to a place. -/
def Walk.arrived (t : Task) (w : Walk) (b : Address) : List Frame :=
  t.arrivals (w.frameMap t) (t.flow.points.take w.pos) b

/-- Every point but the first has received what was sent to it. -/
def Walk.Receives (t : Task) (w : Walk) : Prop :=
  ∀ j q, 0 < j → t.flow.points[j]? = some q → ∃ c, w.cells[j]? = some c ∧ c.Received (w.arrived t q.address)

section Block

variable {unit : String} {vars : List Variable} {maxJoins : Int} {b : Option Block} {init : Frame} {w w' : Walk}
  (hg : (Flow.ofBlock b).IsForward)
include hg

theorem Walk.arrived_step {p : Point} (hp : (Flow.ofBlock b).points[w.pos]? = some p)
    (h : w.step (.ofBlock unit vars maxJoins b) p = .ok w') (a : Address) :
    w'.arrived (.ofBlock unit vars maxJoins b) a = w.arrived (.ofBlock unit vars maxJoins b) a ++
      (Task.ofBlock unit vars maxJoins b).sentTo p (frameAt w.cells w.pos) a := by
  obtain ⟨hpos, hkept⟩ := Walk.step_forward hg hp h
  have hsame : ∀ q ∈ (Flow.ofBlock b).points.take (w.pos + 1), w'.frameMap (.ofBlock unit vars maxJoins b) q.address =
      w.frameMap (.ofBlock unit vars maxJoins b) q.address := by
    intro q hq
    obtain ⟨i, hi, hget⟩ := List.mem_take_iff_getElem.1 hq
    have hi : (Flow.ofBlock b).points[i]? = some q := List.getElem?_eq_some_iff.2 ⟨_, hget⟩
    rw [Walk.frameMap_of_order? (Flow.order?_address hi), Walk.frameMap_of_order? (Flow.order?_address hi)]
    exact hkept i (by omega)
  unfold Walk.arrived
  rw [hpos, show (Task.ofBlock unit vars maxJoins b).flow = .ofBlock b from rfl, Task.arrivals_congr hsame,
    List.take_add_one, hp, Option.toList_some]
  unfold Task.arrivals
  rw [List.flatMap_append, List.flatMap_singleton, Walk.frameMap_of_order? (Flow.order?_address hp)]

theorem Walk.step_receives
    (hdegree : ∀ p ∈ (Flow.ofBlock b).points, (Flow.ofBlock b).inDegree p.address ≤ joinLimit maxJoins + 1)
    {p : Point} (hp : (Flow.ofBlock b).points[w.pos]? = some p)
    (h : w.step (.ofBlock unit vars maxJoins b) p = .ok w') (hw : w.Receives (.ofBlock unit vars maxJoins b)) :
    w'.Receives (.ofBlock unit vars maxJoins b) := by
  intro j q hj hq
  obtain ⟨c, hc, hfs⟩ := hw j q hj hq
  have hfew : (w'.arrived (.ofBlock unit vars maxJoins b) q.address).length ≤ joinLimit maxJoins + 1 :=
    Nat.le_trans (Task.length_arrivals_take_le rfl w'.pos) (hdegree q (List.mem_of_getElem? hq))
  rw [Walk.arrived_step hg hp h] at hfew ⊢
  rcases Walk.step_cases h with ⟨hnone, rfl⟩ | ⟨f, ss, d, hf, hss, hd, rfl⟩
  · refine ⟨c, hc, ?_⟩
    rw [hnone]
    exact (List.append_nil _).symm ▸ hfs
  · have hsent : (Task.ofBlock unit vars maxJoins b).sentTo p (frameAt w.cells w.pos) q.address =
        (Flow.ofBlock b).framesTo p.address q.address ss := by
      rw [Task.sentTo, hf, Option.elim_some, hss]
      rfl
    rw [hsent] at hfew ⊢
    exact Delivery.foldlM_received hd (Flow.order?_address hq) hc hfs hfew

omit hg in
theorem Walk.start_receives :
    (Walk.start (Flow.ofBlock b).points.length init).Receives (.ofBlock unit vars maxJoins b) := by
  intro j q hj hq
  have hlt : j < (Flow.ofBlock b).points.length := (List.getElem?_eq_some_iff.1 hq).1
  refine ⟨⟨none, 0⟩, ?_, rfl, Nat.le_refl 0⟩
  show ((List.replicate _ _).set 0 _)[j]? = _
  rw [List.getElem?_set_ne (Nat.ne_of_lt hj), List.getElem?_replicate_of_lt hlt]

/-- At the end of the walk every point but the first has the join of all that was sent to it. -/
theorem Walk.joinAll_arrivals (h : (Task.ofBlock unit vars maxJoins b).run init = .ok w)
    (hdegree : ∀ p ∈ (Flow.ofBlock b).points, (Flow.ofBlock b).inDegree p.address ≤ joinLimit maxJoins + 1)
    {j : Nat} {p : Point} (hj : 0 < j) (hp : (Flow.ofBlock b).points[j]? = some p) :
    Frame.joinAll ((Task.ofBlock unit vars maxJoins b).arrivals (w.frameMap (.ofBlock unit vars maxJoins b))
      (Flow.ofBlock b).points p.address) = .ok (w.frameMap (.ofBlock unit vars maxJoins b) p.address) := by
  obtain ⟨hreceives, hend⟩ := Walk.run_induction (motive := fun v => v.Receives (.ofBlock unit vars maxJoins b))
    (fun v q v' hq hs hv => Walk.step_receives hg hdegree hq hs hv) h Walk.start_receives
  obtain ⟨c, hc, hjoin, -⟩ := hreceives j p hj hp
  rw [Walk.arrived, List.take_of_length_le hend] at hjoin
  rw [Walk.frameMap_of_order? (Flow.order?_address hp), frameAt, hc]
  exact hjoin

/-- **Forward code is analysed in one exact pass.**  The walk is at each point once, in address order, and ends behind
the last one; it transfers the points that have a frame in the end, each once and from that frame.  If no more edges lead
to any point than one more than the limit of changes, then the first point keeps its frame, and every other point has the
join of all frames that are sent to it from the frames of the others; it has none if and only if nothing is sent. -/
theorem forward_walk_exact (h : (Task.ofBlock unit vars maxJoins b).run init = .ok w) :
    (∀ k ≤ (Flow.ofBlock b).points.length, ∃ v,
      (Walk.start (Flow.ofBlock b).points.length init).runFor (.ofBlock unit vars maxJoins b) k = .ok v ∧ v.pos = k) ∧
    (Walk.start (Flow.ofBlock b).points.length init).runFor (.ofBlock unit vars maxJoins b)
      (Flow.ofBlock b).points.length = .ok w ∧
    (∀ n, (Flow.ofBlock b).points.length ≤ n →
      (Walk.start (Flow.ofBlock b).points.length init).trace (.ofBlock unit vars maxJoins b) n =
        (Flow.ofBlock b).points.filterMap fun p => (w.frameMap (.ofBlock unit vars maxJoins b) p.address).map (p, ·)) ∧
    (∀ p ∈ (Flow.ofBlock b).points, ∀ f, w.frameMap (.ofBlock unit vars maxJoins b) p.address = some f →
      ∃ ss, p.code.transfer (Task.ofBlock unit vars maxJoins b).isInteger f = .ok ss) ∧
    ((∀ p ∈ (Flow.ofBlock b).points, (Flow.ofBlock b).inDegree p.address ≤ joinLimit maxJoins + 1) →
      (∀ a, Flow.entry? (.ofBlock b) = some a → w.frameMap (.ofBlock unit vars maxJoins b) a = some init) ∧
      ∀ p ∈ (Flow.ofBlock b).points, Flow.entry? (.ofBlock b) ≠ some p.address →
        Frame.joinAll ((Task.ofBlock unit vars maxJoins b).arrivals (w.frameMap (.ofBlock unit vars maxJoins b))
          (Flow.ofBlock b).points p.address) = .ok (w.frameMap (.ofBlock unit vars maxJoins b) p.address) ∧
        (w.frameMap (.ofBlock unit vars maxJoins b) p.address = none ↔
          (Task.ofBlock unit vars maxJoins b).arrivals (w.frameMap (.ofBlock unit vars maxJoins b))
            (Flow.ofBlock b).points p.address = [])) := by
  have hpass : ∀ k ≤ (Flow.ofBlock b).points.length, ∃ v,
      (Walk.start (Flow.ofBlock b).points.length init).runFor (.ofBlock unit vars maxJoins b) k = .ok v ∧
      v.pos = k := by
    intro k hk
    obtain ⟨v, hv, hpos⟩ := Walk.runFor_forward hg h (k := k) (by show 0 + k ≤ _; omega)
    exact ⟨v, hv, hpos.trans (Nat.zero_add k)⟩
  refine ⟨hpass, ?_, fun n hn => ?_, fun p hp f hf => ?_, fun hdegree => ⟨fun a ha => ?_, fun p hp hentry => ?_⟩⟩
  · obtain ⟨v, hv, hpos⟩ := hpass _ (Nat.le_refl _)
    have hend : (Flow.ofBlock b).points[v.pos]? = none := List.getElem?_eq_none (by omega)
    have hrun := Walk.run_eq_runFor_bind (.ofBlock unit vars maxJoins b) (Flow.ofBlock b).points.length
      (Walk.start (Flow.ofBlock b).points.length init)
    rw [hv] at hrun ⊢
    exact (Walk.run_of_none hend).symm.trans (hrun.symm.trans h)
  · exact Walk.trace_forward hg h (by show _ ≤ 0 + n; omega)
  · obtain ⟨i, hi⟩ := List.getElem?_of_mem hp
    obtain ⟨ss, hss, -⟩ := Walk.settled_of_run h (Flow.codeAt?_address hi) hf
    exact ⟨ss, hss⟩
  · rw [Walk.frameMap_of_order? (Flow.order?_of_entry ha), Walk.run_kept hg h 0 (Nat.le_refl _), frameAt_start]
    exact if_pos ⟨rfl, Flow.length_pos_of_entry ha⟩
  · obtain ⟨j, hj⟩ := List.getElem?_of_mem hp
    have hpos : 0 < j := by
      refine Nat.pos_of_ne_zero fun hzero => hentry ?_
      subst hzero
      rw [Flow.entry?, List.head?_eq_getElem?, hj]
      rfl
    have hjoin := Walk.joinAll_arrivals hg h hdegree hpos hj
    refine ⟨hjoin, ?_⟩
    rw [← Frame.joinAll_eq_none, hjoin, Except.ok.injEq]

end Block

/-- Two arms of a switch meet at one label, and a loop that never comes back to its start ends where they do. -/
def meetingArms : Block :=
  [.switch 0 [⟨.int 1, "low"⟩, ⟨.int 2, "low"⟩] "high", .label "low", .const 1 (.int 10), .goto "out", .nop,
    .label "high", .loop [.const 1 (.int 20), .goto "out"], .label "out", .ret [1]]

def meetingArmsTask : Task := .ofBlock "f" [⟨"x", .int⟩, ⟨"y", .int⟩] 1 (some meetingArms)

/-- One change is allowed, and two edges lead to the places where frames meet. -/
theorem forward_walk_exact_meetingArms :
    meetingArmsTask.flow.IsForward ∧
    (∀ p ∈ meetingArmsTask.flow.points, meetingArmsTask.flow.inDegree p.address ≤ joinLimit 1 + 1) ∧
    ∃ w, meetingArmsTask.run ⟨[some .top, none]⟩ = .ok w ∧
      ((Walk.start 11 ⟨[some .top, none]⟩).trace meetingArmsTask 11).map (·.1.address.offsets) =
        [[0], [1], [2], [3], [5], [6], [6, 0], [6, 1], [7], [8]] ∧
      w.frameMap meetingArmsTask ⟨[], 4⟩ = none ∧
      w.frameMap meetingArmsTask ⟨[], 7⟩ = some ⟨[some .top, some ⟨.fin 10, .fin 20, by decide⟩]⟩ ∧
      Frame.joinAll (meetingArmsTask.arrivals (w.frameMap meetingArmsTask) meetingArmsTask.flow.points ⟨[], 7⟩) =
        .ok (w.frameMap meetingArmsTask ⟨[], 7⟩) := by
  have hforward : meetingArmsTask.flow.IsForward := by decide
  have hdegree : ∀ p ∈ meetingArmsTask.flow.points, meetingArmsTask.flow.inDegree p.address ≤ joinLimit 1 + 1 := by
    decide
  obtain ⟨w, hw, hend, hdead, hout, hlast⟩ : ∃ w : Walk,
      ((Walk.start 11 ⟨[some .top, none]⟩).runFor meetingArmsTask 11).toOption = some w ∧
      meetingArmsTask.flow.points[w.pos]? = none ∧ w.frameMap meetingArmsTask ⟨[], 4⟩ = none ∧
      w.frameMap meetingArmsTask ⟨[], 7⟩ = some ⟨[some .top, some ⟨.fin 10, .fin 20, by decide⟩]⟩ ∧
      (meetingArmsTask.flow.points.filterMap fun p => (w.frameMap meetingArmsTask p.address).map (p, ·)).map
        (·.1.address.offsets) = [[0], [1], [2], [3], [5], [6], [6, 0], [6, 1], [7], [8]] := ⟨_, rfl, rfl, rfl, rfl, rfl⟩
  have hrun := Task.run_eq_ok 11 hw hend
  obtain ⟨-, -, htrace, -, hexact⟩ := forward_walk_exact hforward hrun
  refine ⟨hforward, hdegree, w, hrun, ?_, hdead, hout, ?_⟩
  · exact (congrArg _ (htrace 11 (Nat.le_refl _))).trans hlast
  · exact ((hexact hdegree).2 ⟨⟨[], 7⟩, .label "out"⟩ (List.mem_of_getElem? (i := 9) rfl) (by decide)).1

end Narrowing
