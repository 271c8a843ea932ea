import Narrowing.Proofs.Solution

/-!
# What preconditions hand on

The frame that leaves a block is put together from every visit of every return, also from visits with frames that were
replaced later on.  Frames only grow, so none of these visits raises it above the frames that stand at the returns in
the end (`Walk.step_exit_below`); and each of those has left.  So the frame that leaves is their join
(`Task.joinAll_returns`), and the preconditions of a function hand on these joins, one to the next and the last to the
body (`FunctionDecl.HandsOn`).
-/

namespace Narrowing

/-! ### Frames at returns -/

/-- The code leaves the unit. -/
def Code.isReturn : Code → Bool
  | .ret _ => true
  | _ => false

theorem Code.isReturn_iff {c : Code} : c.isReturn = true ↔ ∃ as, c = .ret as := by
  cases c <;> simp [isReturn]

namespace Walk

/-- The frames that stand at the returns of a block, in address order. -/
def returns (t : Task) (w : Walk) : List Frame :=
  (t.flow.points.zip w.cells).filterMap fun (p, c) => if p.code.isReturn then c.frame else none

variable {t : Task} {w w' : Walk}

theorem mem_returns {f : Frame} :
    f ∈ w.returns t ↔ ∃ i p as, t.flow.points[i]? = some p ∧ p.code = .ret as ∧ frameAt w.cells i = some f := by
  unfold returns
  rw [List.mem_filterMap]
  constructor
  · rintro ⟨⟨p, c⟩, hmem, hf⟩
    obtain ⟨i, hi⟩ := List.getElem?_of_mem hmem
    obtain ⟨hp, hc⟩ := List.getElem?_zip_eq_some.1 hi
    dsimp only at hf
    split at hf
    · next hret =>
      obtain ⟨as, has⟩ := Code.isReturn_iff.1 hret
      exact ⟨i, p, as, hp, has, Option.bind_eq_some_iff.2 ⟨c, hc, hf⟩⟩
    · cases hf
  · rintro ⟨i, p, as, hp, has, hf⟩
    obtain ⟨c, hc, hcf⟩ := Option.bind_eq_some_iff.1 hf
    refine ⟨(p, c), List.mem_of_getElem? (List.getElem?_zip_eq_some.2 ⟨hp, hc⟩), ?_⟩
    dsimp only
    rw [if_pos (Code.isReturn_iff.2 ⟨as, has⟩)]
    exact hcf

end Walk

/-! ### The frame that leaves -/

theorem Delivery.put_exit {limit pos j : Nat} {d d' : Delivery} {f : Frame} (h : d.put limit pos j f = .ok d') :
    d'.exit = d.exit := by
  rcases Delivery.put_cases h with ⟨rfl, -⟩ | ⟨c, c', -, -, rfl⟩
  · rfl
  · rfl

/-- A send raises the frame that leaves no higher than to what it takes out of the unit. -/
theorem Delivery.send_exit_below {t : Task} {pos : Nat} {a : Address} {d d' : Delivery} {s : Send} {o : Option Frame}
    (h : Delivery.send t pos a d s = .ok d') (hs : s.edge = .exit → FrameBelow (some s.frame) o)
    (hd : FrameBelow d.exit o) : FrameBelow d'.exit o := by
  rcases Delivery.send_cases h with ⟨he, h⟩ | ⟨-, -, rfl⟩ | ⟨j, -, -, h⟩
  · obtain ⟨g, rfl, -, -, hleast⟩ := Delivery.leave_eq_ok h
    exact hleast o hd (hs he)
  · exact hd
  · rw [Delivery.put_exit h]
    exact hd

/-- Only returns take frames out of the unit, and they take them as they are. -/
theorem Sends.of_exit {isInteger : Slot → Bool} {f : Frame} {c : Code} {s : Send} (h : Sends isInteger f c s)
    (he : s.edge = .exit) : (∃ as, c = .ret as) ∧ s.frame = f := by
  cases h with
  | ret => exact ⟨⟨_, rfl⟩, rfl⟩
  | _ => cases he

namespace Walk

variable {t : Task} {w w' : Walk}

/-- What is above the frames at the returns behind a step is above the frame that has left by then. -/
theorem step_exit_below {p : Point} {o : Option Frame} (hp : t.flow.points[w.pos]? = some p)
    (h : w.step t p = .ok w') (hw : FrameBelow w.exit o) (hreturns : ∀ f ∈ w'.returns t, FrameBelow (some f) o) :
    FrameBelow w'.exit o := by
  rcases step_cases h with ⟨-, rfl⟩ | ⟨f, ss, d, hf, hss, hd, rfl⟩
  · exact hw
  · refine foldlM_induction (motive := fun e => FrameBelow e.exit o) (fun e s hs e' he hkept => ?_) hd hw
    refine Delivery.send_exit_below he (fun hexit => ?_) hkept
    obtain ⟨⟨as, has⟩, hsf⟩ := ((mem_transfer hss s).1 hs).of_exit hexit
    -- the frame that was sent has grown into one that is still at the return
    obtain ⟨f', hf', hle⟩ := (Delivery.foldlM_send hd).1.grown.frameAt w.pos f hf
    rw [hsf]
    exact (FrameBelow.some_some.2 hle).trans (hreturns f' (mem_returns.2 ⟨w.pos, p, as, hp, has, hf'⟩))

/-- What is above the frames at the returns after a step is above those before it. -/
theorem returns_below_of_step {p : Point} {o : Option Frame} (h : w.step t p = .ok w')
    (hreturns : ∀ f ∈ w'.returns t, FrameBelow (some f) o) : ∀ f ∈ w.returns t, FrameBelow (some f) o := by
  intro f hf
  obtain ⟨i, q, as, hq, has, hframe⟩ := mem_returns.1 hf
  obtain ⟨f', hf', hle⟩ := (step_grown h).1.frameAt i f hframe
  exact (FrameBelow.some_some.2 hle).trans (hreturns f' (mem_returns.2 ⟨i, q, as, hq, has, hf'⟩))

/-- However often the returns were walked, what is above the frames at them is above the frame that left. -/
theorem run_exit_below (h : w.run t = .ok w') (hw : w.exit = none) {o : Option Frame}
    (hreturns : ∀ f ∈ w'.returns t, FrameBelow (some f) o) : FrameBelow w'.exit o := by
  refine (run_induction (motive := fun v => (∀ f ∈ v.returns t, FrameBelow (some f) o) → FrameBelow v.exit o)
    (fun v p v' hp hs hv hv' => ?_) h (fun _ => ?_)).1 hreturns
  · exact step_exit_below hp hs (hv (returns_below_of_step hs hv')) hv'
  · rw [hw]
    exact FrameBelow.none o

/-- The frames at the returns have all left. -/
theorem returns_below_exit (h : w.run t = .ok w') (hpos : w.pos = 0) :
    ∀ f ∈ w'.returns t, FrameBelow (some f) w'.exit := by
  intro f hf
  obtain ⟨i, p, as, hp, has, hframe⟩ := mem_returns.1 hf
  obtain ⟨ss, hss, hall⟩ := run_settled h hpos i p f hp hframe
  have hsend : (⟨.exit, f⟩ : Send) ∈ ss := (mem_transfer hss _).2 (has ▸ .ret)
  exact (hall _ hsend).left rfl

end Walk

namespace Task

variable {t : Task} {init : Frame} {w : Walk}

/-- The frame that leaves a block is the join of the frames that stand at its returns in the end. -/
theorem joinAll_returns (h : t.run init = .ok w) : Frame.joinAll (w.returns t) = .ok w.exit := by
  have habove := Walk.returns_below_exit h rfl
  have hleast : ∀ o, (∀ f ∈ w.returns t, FrameBelow (some f) o) → FrameBelow w.exit o :=
    fun o ho => Walk.run_exit_below h rfl ho
  by_cases hne : w.returns t = []
  · have hexit : FrameBelow w.exit none := hleast none (by rw [hne]; exact nofun)
    rw [hexit.antisymm (FrameBelow.none _)]
    exact Frame.joinAll_eq_none.2 hne
  · obtain ⟨f, hf⟩ := List.exists_mem_of_ne_nil _ hne
    obtain ⟨e, he, -⟩ := FrameBelow.some_left.1 (habove f hf)
    rw [he] at habove hleast ⊢
    refine Frame.joinAll_eq_some hne (fun g hg => FrameBelow.some_some.1 (habove g hg)) fun k hk => ?_
    exact FrameBelow.some_some.1 (hleast (some k) fun g hg => FrameBelow.some_some.2 (hk g hg))

theorem exit_isSome_iff (h : t.run init = .ok w) :
    w.exit.isSome = true ↔
      ∃ i p as f, t.flow.points[i]? = some p ∧ p.code = .ret as ∧ frameAt w.cells i = some f := by
  have hjoin := joinAll_returns h
  constructor
  · intro hsome
    have hne : w.returns t ≠ [] := by
      intro hnil
      rw [Frame.joinAll_eq_none.2 hnil] at hjoin
      rw [← Except.ok.inj hjoin] at hsome
      cases hsome
    obtain ⟨f, hf⟩ := List.exists_mem_of_ne_nil _ hne
    obtain ⟨i, p, as, hp, has, hframe⟩ := Walk.mem_returns.1 hf
    exact ⟨i, p, as, f, hp, has, hframe⟩
  · rintro ⟨i, p, as, f, hp, has, hframe⟩
    obtain ⟨e, he, -⟩ := FrameBelow.some_left.1
      (Walk.returns_below_exit h rfl f (Walk.mem_returns.2 ⟨i, p, as, hp, has, hframe⟩))
    rw [he]
    rfl

/-- A walk over a block with points leaves a frame at the first of them. -/
theorem exists_frame_of_run (h : t.run init = .ok w) (hne : t.flow.points ≠ []) :
    ∃ c ∈ w.cells, ∃ f, c.frame = some f := by
  obtain ⟨f, hf, -⟩ := FrameBelow.some_left.1 (init_below_of_run h (List.length_pos_iff.2 hne))
  obtain ⟨c, hc, hcf⟩ := Option.bind_eq_some_iff.1 hf
  exact ⟨c, List.mem_of_getElem? hc, f, hcf⟩

end Task

/-! ### Functions -/

namespace FunctionDecl

/-- From the given frame the clauses hand on a frame, or none if one of them never returns: each clause is walked from
the frame that the one before it handed on, and hands on the join of the frames at its returns. -/
inductive HandsOn (f : FunctionDecl) (maxJoins : Int) : Frame → List (Option Block) → Option Frame → Prop
  | done {frame} : HandsOn f maxJoins frame [] (some frame)
  | never {frame b bs w} (hrun : (f.task maxJoins b).run frame = .ok w)
    (hjoin : Frame.joinAll (w.returns (f.task maxJoins b)) = .ok none) : HandsOn f maxJoins frame (b :: bs) none
  | clause {frame b bs w left o} (hrun : (f.task maxJoins b).run frame = .ok w)
    (hjoin : Frame.joinAll (w.returns (f.task maxJoins b)) = .ok (some left)) (hrest : HandsOn f maxJoins left bs o) :
    HandsOn f maxJoins frame (b :: bs) o

variable {f : FunctionDecl} {maxJoins : Int}

theorem assume_eq_ok_iff {frame : Frame} {bs : List (Option Block)} {o : Option Frame} :
    f.assume maxJoins frame bs = .ok o ↔ f.HandsOn maxJoins frame bs o := by
  constructor
  · intro h
    induction bs generalizing frame with
    | nil => cases h; exact .done
    | cons b bs ih =>
      obtain ⟨w, hw, h⟩ := bind_eq_ok.1 h
      have hjoin := Task.joinAll_returns hw
      cases hexit : w.exit with
      | none =>
        rw [hexit] at h hjoin
        cases h
        exact .never hw hjoin
      | some left =>
        rw [hexit] at h hjoin
        exact .clause hw hjoin (ih h)
  · intro h
    induction h with
    | done => rfl
    | never hrun hjoin =>
      rw [Task.joinAll_returns hrun] at hjoin
      exact bind_eq_ok.2 ⟨_, hrun, by rw [Except.ok.inj hjoin]; rfl⟩
    | clause hrun hjoin _ ih =>
      rw [Task.joinAll_returns hrun] at hjoin
      exact bind_eq_ok.2 ⟨_, hrun, by rw [Except.ok.inj hjoin]; exact ih⟩

/-- Nothing is handed on if and only if one of the clauses never returns, and those before it do. -/
theorem handsOn_none_iff {frame : Frame} {bs : List (Option Block)} :
    f.HandsOn maxJoins frame bs none ↔ ∃ pre b post left w, bs = pre ++ b :: post ∧
      f.HandsOn maxJoins frame pre (some left) ∧ (f.task maxJoins b).run left = .ok w ∧ w.exit = none := by
  constructor
  · intro h
    generalize hnone : (none : Option Frame) = o at h
    induction h with
    | done => cases hnone
    | @never frame b bs w hrun hjoin =>
      rw [Task.joinAll_returns hrun] at hjoin
      exact ⟨[], b, bs, frame, w, rfl, .done, hrun, Except.ok.inj hjoin⟩
    | @clause frame b bs w left o hrun hjoin hrest ih =>
      obtain ⟨pre, b', post, left', w', rfl, hpre, hrun', hexit⟩ := ih hnone
      exact ⟨b :: pre, b', post, left', w', rfl, .clause hrun hjoin hpre, hrun', hexit⟩
  · rintro ⟨pre, b, post, left, w, rfl, hpre, hrun, hexit⟩
    generalize hsome : some left = o at hpre
    induction hpre with
    | done =>
      cases hsome
      exact .never hrun (hexit ▸ Task.joinAll_returns hrun)
    | never => cases hsome
    | clause hrun' hjoin _ ih => exact .clause hrun' hjoin (ih hsome)

theorem analyze_eq_ok_iff {res : AnalysisResult} :
    f.analyze maxJoins = .ok res ↔
      (f.HandsOn maxJoins f.initialFrame f.preconditions none ∧
        res = ⟨f.name, .ofBlock f.code, (Flow.ofBlock f.code).points.map fun _ => none⟩) ∨
      ∃ frame w, f.HandsOn maxJoins f.initialFrame f.preconditions (some frame) ∧
        (f.task maxJoins f.code).run frame = .ok w ∧ res = (f.task maxJoins f.code).result w := by
  unfold analyze
  rw [bind_eq_ok]
  constructor
  · rintro ⟨o, ho, h⟩
    cases o with
    | none =>
      cases h
      exact .inl ⟨assume_eq_ok_iff.1 ho, rfl⟩
    | some frame =>
      obtain ⟨w, hw, h⟩ := bind_eq_ok.1 h
      cases h
      exact .inr ⟨frame, w, assume_eq_ok_iff.1 ho, hw, rfl⟩
  · rintro (⟨ho, rfl⟩ | ⟨frame, w, ho, hw, rfl⟩)
    · exact ⟨none, assume_eq_ok_iff.2 ho, rfl⟩
    · exact ⟨some frame, assume_eq_ok_iff.2 ho, bind_eq_ok.2 ⟨w, hw, rfl⟩⟩

end FunctionDecl

/-- **Preconditions hand on exactly the frames at their returns.**  When the walk of a block of a function ends, a frame
has left it if and only if one stands at a return, and then it is the join of all those that do.  The analysis walks
each precondition, and then the body, from the frame so handed on.  Its result has no frame if and only if some
precondition that it walks lets no frame out, or the body has no points. -/
theorem preconditions_hand_on_returns (f : FunctionDecl) (maxJoins : Int) :
    (∀ b init w, (f.task maxJoins b).run init = .ok w →
      (w.exit.isSome = true ↔ ∃ i p as g, (Flow.ofBlock b).points[i]? = some p ∧ p.code = .ret as ∧
        frameAt w.cells i = some g) ∧
      Frame.joinAll (w.returns (f.task maxJoins b)) = .ok w.exit) ∧
    (∀ res, f.analyze maxJoins = .ok res ↔
      (f.HandsOn maxJoins f.initialFrame f.preconditions none ∧
        res = ⟨f.name, .ofBlock f.code, (Flow.ofBlock f.code).points.map fun _ => none⟩) ∨
      ∃ frame w, f.HandsOn maxJoins f.initialFrame f.preconditions (some frame) ∧
        (f.task maxJoins f.code).run frame = .ok w ∧ res = (f.task maxJoins f.code).result w) ∧
    ∀ res, f.analyze maxJoins = .ok res → ((∀ o ∈ res.frames, o = none) ↔
      (∃ pre b post left w, f.preconditions = pre ++ b :: post ∧
        f.HandsOn maxJoins f.initialFrame pre (some left) ∧ (f.task maxJoins b).run left = .ok w ∧ w.exit = none) ∨
      (Flow.ofBlock f.code).points = []) := by
  refine ⟨fun b init w h => ⟨Task.exit_isSome_iff h, Task.joinAll_returns h⟩, fun res => FunctionDecl.analyze_eq_ok_iff,
    fun res hres => ?_⟩
  rw [← FunctionDecl.handsOn_none_iff]
  rcases FunctionDecl.analyze_eq_ok_iff.1 hres with ⟨hnone, rfl⟩ | ⟨frame, w, hsome, hw, rfl⟩
  · refine ⟨fun _ => .inl hnone, fun _ o ho => ?_⟩
    obtain ⟨p, -, rfl⟩ := List.mem_map.1 ho
    rfl
  · constructor
    · intro hempty
      refine .inr (Classical.byContradiction fun hne => ?_)
      obtain ⟨c, hc, g, hg⟩ := Task.exists_frame_of_run hw hne
      have hcell := hempty c.frame (List.mem_map_of_mem hc)
      rw [hg] at hcell
      cases hcell
    · rintro (hnone | hpoints)
      · -- what is handed on is unique
        have hassume := FunctionDecl.assume_eq_ok_iff.2 hnone
        rw [FunctionDecl.assume_eq_ok_iff.2 hsome] at hassume
        cases hassume
      · intro o ho
        have hlen : w.cells.length = 0 := by
          rw [length_cells_of_run hw, hpoints]
          rfl
        rw [Task.result, List.length_eq_zero_iff.1 hlen] at ho
        cases ho

/-- The return is walked twice, since the jump back raises the frame there. -/
def settlingClause : Block :=
  [.label "again", .branch 0 .lt 1 "low", .ret [], .label "low", .const 0 (.int 300), .goto "again"]

def settling (more : List (Option Block)) : FunctionDecl where
  name := "settle"
  params := [⟨"x", .nominal "u8"⟩, ⟨"y", .nominal "u8"⟩]
  preconditions := some settlingClause :: more
  code := some [.nop, .ret []]

def settlingTask : Task := (settling []).task 0 (some settlingClause)

def settlingStart : Walk := .start 6 (settling []).initialFrame

/-- What left at the first visit of the return is not what left in the end; the latter is handed on.  A further
precondition that fails hands on nothing. -/
theorem preconditions_hand_on_returns_settling :
    (∃ v w left, settlingStart.runFor settlingTask 3 = .ok v ∧ v.exit.isSome = true ∧ v.exit ≠ some left ∧
      settlingTask.run (settling []).initialFrame = .ok w ∧ w.exit = some left ∧
      Frame.joinAll (w.returns settlingTask) = .ok (some left) ∧
      ∃ res, (settling []).analyze 0 = .ok res ∧ res.frames = [some left, some left]) ∧
    ∃ res, (settling [some [.fail]]).analyze 0 = .ok res ∧ ∀ o ∈ res.frames, o = none := by
  obtain ⟨v, w, left, hv, hfirst, hne, hw, hend, hleft⟩ : ∃ (v w : Walk) (left : Frame),
      settlingStart.runFor settlingTask 3 = .ok v ∧ v.exit.isSome = true ∧ v.exit ≠ some left ∧
      (settlingStart.runFor settlingTask 12).toOption = some w ∧ settlingTask.flow.points[w.pos]? = none ∧
      w.exit = some left := ⟨_, _, ⟨[some ⟨.fin 0, .fin 300, by decide⟩, some ⟨.fin 0, .fin 255, by decide⟩]⟩,
        rfl, rfl, by decide, rfl, rfl, rfl⟩
  have hrun : settlingTask.run (settling []).initialFrame = .ok w := Task.run_eq_ok 12 hw hend
  have hjoin := ((preconditions_hand_on_returns (settling []) 0).1 _ _ _ hrun).2
  rw [hleft] at hjoin
  obtain ⟨body, hbody, hframes⟩ : ∃ body, ((settling []).task 0 (settling []).code).run left = .ok body ∧
      body.cells.map (·.frame) = [some left, some left] := ⟨_, Task.run_eq_ok 2 rfl rfl, rfl⟩
  obtain ⟨stuck, hstuck, hnone⟩ : ∃ stuck, ((settling []).task 0 (some [.fail])).run left = .ok stuck ∧
      stuck.exit = none := ⟨_, Task.run_eq_ok 1 rfl rfl, rfl⟩
  refine ⟨⟨v, w, left, hv, hfirst, hne, hrun, hleft, hjoin,
    ((settling []).task 0 (settling []).code).result body, ?_, hframes⟩, ?_⟩
  · exact ((preconditions_hand_on_returns (settling []) 0).2.1 _).2
      (.inr ⟨left, body, .clause hrun hjoin .done, hbody, rfl⟩)
  · obtain ⟨-, hiff, hempty⟩ := preconditions_hand_on_returns (settling [some [.fail]]) 0
    have hanalyze := (hiff _).2 (.inl ⟨.clause hrun hjoin (.never hstuck (hnone ▸ Task.joinAll_returns hstuck)), rfl⟩)
    exact ⟨_, hanalyze, (hempty _ hanalyze).2
      (.inl ⟨[_], _, [], left, stuck, rfl, .clause hrun hjoin .done, hstuck, hnone⟩)⟩

end Narrowing
