import Narrowing.Proofs.Safety
import Narrowing.Proofs.Solution
import Narrowing.Proofs.WellFormed

/-!
# Where frames come to

Two descriptions say where a code leads: `Flow.successors` by its sort, and `Code.transfer` by the edges it sends frames
along.  The second stays within the first (`Flow.targets_sublist_successors`), so a walk brings frames only to points
that control can reach from the entry (`Task.Visits.framesReached`).  A walk that ends has followed every code that a
frame came to, and an access cannot be followed (`Task.not_isAccess_of_run`).
-/

namespace Narrowing

open Relation

/-! ### Successors -/

namespace Flow

/-- The places that the code at an address sends to. -/
def targets (g : Flow) (a : Address) (ss : List Send) : List Address := ss.filterMap fun s => g.target? a s.edge

variable {g : Flow} {a : Address}

theorem targets_append (ss ts : List Send) : g.targets a (ss ++ ts) = g.targets a ss ++ g.targets a ts :=
  List.filterMap_append

theorem targets_singleton (s : Send) : g.targets a [s] = (g.target? a s.edge).toList := by
  unfold targets
  cases hs : g.target? a s.edge <;> simp [hs]

theorem targets_optional (e : Edge) (o : Option Frame) :
    (g.targets a (o.map (Send.mk e)).toList).Sublist (g.target? a e).toList := by
  cases o with
  | none => exact List.nil_sublist _
  | some f => exact (targets_singleton (g := g) (a := a) ⟨e, f⟩).symm ▸ List.Sublist.refl _

theorem mem_targets_of_mem {ss : List Send} {s : Send} {b : Address} (hs : s ∈ ss) (hb : g.target? a s.edge = some b) :
    b ∈ g.targets a ss :=
  List.mem_filterMap.2 ⟨s, hs, hb⟩

theorem targets_armSends {f : Frame} {operand : Slot} {contents : Option Interval} {default : String} {number : Nat}
    {arms : List Arm} {ss : List Send} (h : Code.armSends f operand contents default number arms = .ok ss) :
    (g.targets a ss).Sublist ((arms.map Arm.target ++ [default]).filterMap g.label?) := by
  induction arms generalizing number ss with
  | nil =>
    cases h
    exact List.Sublist.refl _
  | cons arm arms ih =>
    obtain ⟨first, -, h⟩ := bind_eq_ok.1 h
    obtain ⟨more, hmore, h⟩ := bind_eq_ok.1 h
    cases h
    have hfirst : (g.target? a (.jump arm.target number)).toList = [arm.target].filterMap g.label? := by
      cases hl : g.label? arm.target <;> simp [target?, hl]
    have harms : ((arm :: arms).map Arm.target ++ [default]).filterMap g.label? =
        [arm.target].filterMap g.label? ++ (arms.map Arm.target ++ [default]).filterMap g.label? :=
      List.filterMap_append (l := [arm.target])
    rw [targets_append, harms, ← hfirst]
    exact (targets_optional _ first).append (ih hmore)

/-- The places that a code sends to are among its successors, in the same order and no more often. -/
theorem targets_sublist_successors {c : Code} {isInteger : Slot → Bool} {f : Frame} {ss : List Send}
    (hc : g.codeAt? a = some c) (h : c.transfer isInteger f = .ok ss) :
    ∃ as, g.successors a = .ok as ∧ (g.targets a ss).Sublist as := by
  have hcode : g.codeAt a = .ok c := by rw [codeAt, hc]
  have hnext : ∀ k, (g.targets a [⟨.next, k⟩]).Sublist (g.next? a).toList := by
    intro k
    rw [targets_singleton]
    exact List.Sublist.refl _
  have henter : ∀ k, (c = .bareLoop ∨ ∃ body, c = .loop body) →
      ∃ as, (do return (← g.enter? a).toList : Except Fault (List Address)) = .ok as ∧
        (g.targets a [⟨.enter, k⟩]).Sublist as := by
    intro k hloop
    obtain ⟨o, ho⟩ := exists_enter? hc hloop
    refine ⟨o.toList, bind_eq_ok.2 ⟨o, ho, rfl⟩, ?_⟩
    rw [targets_singleton, target?, ho]
    exact List.Sublist.refl _
  unfold successors
  rw [hcode]
  cases c with
  | const t v =>
    obtain ⟨k, -, rfl⟩ := map_eq_ok.1 h
    exact ⟨_, rfl, hnext k⟩
  | assign t s =>
    obtain ⟨k, -, rfl⟩ := map_eq_ok.1 h
    exact ⟨_, rfl, hnext k⟩
  | goto l =>
    cases h
    exact ⟨_, rfl, by rw [targets_singleton]; exact List.Sublist.refl _⟩
  | branch left op right l =>
    refine ⟨_, rfl, ?_⟩
    rcases Code.branchSends_eq_ok (mapError_eq_ok.1 h) with
      ⟨x, y, -, -, -, rfl⟩ | ⟨r, s, holds, fails, taken, passed, -, -, -, -, -, rfl⟩
    · rw [← List.singleton_append, targets_append, targets_singleton, targets_singleton]
      exact List.Sublist.refl _
    · rw [targets_append]
      exact (targets_optional (.jump l 0) taken).append (targets_optional .next passed)
  | switch operand arms d =>
    obtain ⟨o, -, hss⟩ := bind_eq_ok.1 (mapError_eq_ok.1 h)
    exact ⟨_, rfl, targets_armSends hss⟩
  | loop body =>
    cases h
    exact henter f (.inr ⟨body, rfl⟩)
  | bareLoop =>
    cases h
    exact henter f (.inl rfl)
  | ret as =>
    cases h
    exact ⟨_, rfl, List.Sublist.refl _⟩
  | fail =>
    cases h
    exact ⟨_, rfl, List.Sublist.refl _⟩
  | compute m t as aux =>
    obtain ⟨-, k, -, rfl⟩ := Code.transfer_compute_eq_ok h
    exact ⟨_, rfl, hnext k⟩
  | hole => cases h
  | _ =>
    cases h
    exact ⟨_, rfl, hnext f⟩

/-- Control can come to the place from the entry, from each place to one of its successors. -/
inductive Reach (g : Flow) : Address → Prop
  | entry {a : Address} (h : Flow.entry? g = some a) : Reach g a
  | step {a b : Address} {as : List Address} (ha : Reach g a) (has : g.successors a = .ok as) (hb : b ∈ as) : Reach g b

/-- Control can reach the places that a code sends to, if it can reach the code. -/
theorem Reach.sent {c : Code} {isInteger : Slot → Bool} {f : Frame} {ss : List Send} {s : Send} {b : Address}
    (ha : g.Reach a) (hc : g.codeAt? a = some c) (h : c.transfer isInteger f = .ok ss) (hs : s ∈ ss)
    (hb : g.target? a s.edge = some b) : g.Reach b := by
  obtain ⟨as, has, hsub⟩ := targets_sublist_successors hc h
  exact .step ha has (hsub.subset (mem_targets_of_mem hs hb))

end Flow

/-! ### Frames of a walk -/

/-- Frames are at points only that control can reach. -/
def FramesReached (g : Flow) (cells : List Cell) : Prop :=
  ∀ i p f, g.points[i]? = some p → frameAt cells i = some f → g.Reach p.address

theorem Delivery.send_framesReached {t : Task} {pos : Nat} {a : Address} {d d' : Delivery} {s : Send}
    (h : Delivery.send t pos a d s = .ok d') (hs : ∀ b, t.flow.target? a s.edge = some b → t.flow.Reach b)
    (hd : FramesReached t.flow d.cells) : FramesReached t.flow d'.cells := by
  rcases Delivery.send_cases h with ⟨-, h⟩ | ⟨-, -, rfl⟩ | ⟨j, -, hj, h⟩
  · obtain ⟨g, rfl, -, -⟩ := Delivery.leave_eq_ok h
    exact hd
  · exact hd
  · rcases Delivery.put_cases h with ⟨rfl, -⟩ | ⟨c, c', hc, hm, rfl⟩
    · exact hd
    · intro i p f hp hf
      by_cases hji : j = i
      · subst hji
        obtain ⟨b, hb, hbj⟩ := Flow.target?_of_follow hj
        obtain ⟨q, hq, rfl, -⟩ := Flow.order?_eq_some hbj
        rw [hp] at hq
        cases hq
        exact hs _ hb
      · rw [frameAt_set_ne hji] at hf
        exact hd i p f hp hf

section Block

variable {unit : String} {vars : List Variable} {maxJoins : Int} {b : Option Block} {init : Frame} {w : Walk}

theorem Walk.step_framesReached {w' : Walk} {p : Point} (hp : (Flow.ofBlock b).points[w.pos]? = some p)
    (h : w.step (.ofBlock unit vars maxJoins b) p = .ok w') (hw : FramesReached (.ofBlock b) w.cells) :
    FramesReached (.ofBlock b) w'.cells := by
  rcases Walk.step_cases h with ⟨-, rfl⟩ | ⟨f, ss, d, hf, hss, hd, rfl⟩
  · exact hw
  · have hreach : (Flow.ofBlock b).Reach p.address := hw w.pos p f hp hf
    refine foldlM_induction (motive := fun e => FramesReached (.ofBlock b) e.cells) (fun e s hs e' he hkept => ?_) hd hw
    exact Delivery.send_framesReached he (fun a ha => hreach.sent (Flow.codeAt?_address hp) hss hs ha) hkept

/-- Wherever a walk has brought a frame, control can come from the entry. -/
theorem Task.Visits.framesReached (h : (Task.ofBlock unit vars maxJoins b).Visits init w) :
    FramesReached (.ofBlock b) w.cells := by
  induction h with
  | refl =>
    intro i p f hp hf
    rw [frameAt_start] at hf
    split at hf
    · next hi =>
      obtain ⟨rfl, -⟩ := hi
      refine .entry ?_
      show (Flow.ofBlock b).points.head?.map Point.address = some p.address
      rw [List.head?_eq_getElem?, hp]
      rfl
    · cases hf
  | tail _ hnext ih =>
    obtain ⟨p, hp, hs⟩ := hnext
    exact Walk.step_framesReached hp hs ih

end Block

/-! ### Where walks stop -/

/-- The walk from the given frame stops in the state `w`: every point is behind it, or it fails at the next one. -/
inductive Task.Stops (t : Task) (init : Frame) : Walk → Option AnalysisError → Prop
  | done {w} (hw : t.Visits init w) (hend : t.flow.points[w.pos]? = none) : Stops t init w none
  | failed {w p e} (hw : t.Visits init w) (hp : t.flow.points[w.pos]? = some p) (hs : w.step t p = .error e) :
    Stops t init w (some e)

namespace Task

variable {t : Task} {init : Frame} {w : Walk} {o : Option AnalysisError}

theorem Stops.visits (h : t.Stops init w o) : t.Visits init w := by
  cases h with
  | done hw _ => exact hw
  | failed hw _ _ => exact hw

theorem exists_stops (t : Task) (init : Frame) : ∃ w o, t.Stops init w o := by
  cases hrun : t.run init with
  | ok w =>
    have hend := (Walk.run_induction (motive := fun _ => True) (fun _ _ _ _ _ _ => trivial) hrun trivial).2
    exact ⟨w, none, .done (Walk.reaches_of_run hrun) (List.getElem?_eq_none hend)⟩
  | error e =>
    obtain ⟨w, p, hw, hp, hs⟩ := Walk.run_eq_error.1 hrun
    exact ⟨w, some e, .failed hw hp hs⟩

/-- A walk that comes to an end stops there and nowhere else. -/
theorem Stops.of_run {v : Walk} (h : t.Stops init w o) (hrun : t.run init = .ok v) : w = v := by
  cases h with
  | done hw hend =>
    have hsame : ∀ {u : Walk}, ReflTransGen (Walk.Next t) u w → u.run t = .ok w := by
      intro u hu
      induction hu using ReflTransGen.head_induction_on with
      | refl => exact Walk.run_of_none hend
      | head hnext _ ih =>
        obtain ⟨p, hp, hs⟩ := hnext
        rw [Walk.run_of_some hp, hs]
        exact ih
    exact Except.ok.inj ((hsame hw).symm.trans hrun)
  | failed hw hp hs =>
    have herror : t.run init = .error _ := Walk.run_eq_error.2 ⟨_, _, hw, hp, hs⟩
    rw [hrun] at herror
    cases herror

end Task

/-! ### Accesses -/

/-- The accesses are the codes that the analysis does not follow. -/
theorem Code.transfer_eq_unsupported {c : Code} {isInteger : Slot → Bool} {f : Frame} :
    c.transfer isInteger f = .error .unsupported ↔ c.IsAccess := by
  have hmap : ∀ {α : Type} (x : Except Fault α) (k : α → List Send),
      (x.mapError Stop.fault).map k ≠ .error .unsupported := by
    intro α x k
    cases x <;> exact nofun
  have hfault : ∀ x : Except Fault (List Send), x.mapError Stop.fault ≠ .error .unsupported := by
    intro x
    cases x <;> exact nofun
  constructor
  · intro h
    cases c with
    | const t v => exact absurd h (hmap _ _)
    | assign t s => exact absurd h (hmap _ _)
    | branch a op b l => exact absurd h (hfault _)
    | switch a arms d => exact absurd h (hfault _)
    | compute m t as aux =>
      simp only [Code.transfer] at h
      split at h
      · next hm => exact ⟨m, t, as, aux, rfl, hm⟩
      · exact absurd h (hmap _ _)
    | _ => cases h
  · rintro ⟨m, t, as, aux, rfl, hm⟩
    simp only [Code.transfer, hm, if_true]

/-- A walk that comes to its end has brought no frame to an access. -/
theorem Task.not_isAccess_of_run {t : Task} {init f : Frame} {w : Walk} {i : Nat} {p : Point}
    (h : t.run init = .ok w) (hp : t.flow.points[i]? = some p) (hf : frameAt w.cells i = some f) :
    ¬ p.code.IsAccess := by
  intro haccess
  obtain ⟨ss, hss, -⟩ := Walk.run_settled h rfl i p f hp hf
  rw [Code.transfer_eq_unsupported.2 haccess] at hss
  cases hss

/-- A walk fails for want of a transfer at an access that a frame has reached. -/
theorem Walk.step_eq_unsupported {t : Task} {w : Walk} {p q : Point} {unit : String}
    (h : w.step t p = .error (.unsupported unit q)) :
    unit = t.unit ∧ q = p ∧ p.code.IsAccess ∧ ∃ f, frameAt w.cells w.pos = some f := by
  unfold Walk.step at h
  cases hf : frameAt w.cells w.pos with
  | none =>
    rw [show (w.cells[w.pos]?).bind Cell.frame = none from hf] at h
    cases h
  | some f =>
    rw [show (w.cells[w.pos]?).bind Cell.frame = some f from hf] at h
    dsimp only at h
    split at h
    · next hss =>
      cases h
      exact ⟨rfl, rfl, Code.transfer_eq_unsupported.1 hss, f, rfl⟩
    · cases h
    · split at h <;> cases h

namespace Decl

variable {d : Decl} {maxJoins : Int}

theorem Walks.exists_mem_blocks {t : Task} {init : Frame} (h : d.Walks maxJoins t init) :
    ∃ b ∈ d.blocks, t = .ofBlock d.name d.vars maxJoins b := by
  cases h with
  | @precondition f pre b post frame hpre _ =>
    refine ⟨b, List.mem_append_left _ ?_, rfl⟩
    rw [hpre]
    exact List.mem_append_right _ List.mem_cons_self
  | @body f frame _ => exact ⟨f.code, List.mem_append_right _ (List.mem_singleton.2 rfl), rfl⟩
  | @invariant t => exact ⟨t.invariant, List.mem_singleton.2 rfl, rfl⟩

/-- All walks of an analysis with a result come to their end. -/
theorem Walks.run_of_analyze {t : Task} {init : Frame} {res : AnalysisResult} (h : d.Walks maxJoins t init)
    (hres : d.analyze maxJoins = .ok res) : ∃ w, t.run init = .ok w := by
  cases hrun : t.run init with
  | ok w => exact ⟨w, rfl⟩
  | error e =>
    rw [analyze_eq_error.2 ⟨t, init, h, hrun⟩] at hres
    cases hres

/-- The frames of a result stand where the last walk left them. -/
theorem exists_walk_of_entry {res : AnalysisResult} {p : Point} {f : Frame} (h : d.analyze maxJoins = .ok res)
    (hp : (p, some f) ∈ res.entries) :
    ∃ t init w i, d.Walks maxJoins t init ∧ t.run init = .ok w ∧ t.flow.points[i]? = some p ∧
      frameAt w.cells i = some f := by
  obtain ⟨i, hi⟩ := List.getElem?_of_mem hp
  obtain ⟨hpoint, hframe⟩ := List.getElem?_zip_eq_some.1 hi
  have hcells : ∀ w : Walk, (w.cells.map Cell.frame)[i]? = some (some f) → frameAt w.cells i = some f := by
    intro w hw
    rw [← join_getElem?_map, hw]
    rfl
  cases d with
  | type t =>
    obtain ⟨w, hw, h⟩ := bind_eq_ok.1 h
    cases h
    exact ⟨_, _, w, i, .invariant, hw, hpoint, hcells w hframe⟩
  | function fn =>
    obtain ⟨o, ho, h⟩ := bind_eq_ok.1 h
    cases o with
    | none =>
      cases h
      obtain ⟨q, -, hq⟩ := List.mem_map.1 (List.mem_of_getElem? hframe)
      cases hq
    | some frame =>
      obtain ⟨w, hw, h⟩ := bind_eq_ok.1 h
      cases h
      exact ⟨_, _, w, i, .body ho, hw, hpoint, hcells w hframe⟩

end Decl

/-- **Accesses are reported when the analysis reaches them.**  Wherever a walk of a unit stops, its frames are at points
that control can reach along successors.  If the analysis has a result, no frame is at an access, neither in the result
nor where any of the walks stopped.  If it reports an access, that access is the point at which a walk of one of the
unit's blocks stopped; a frame had reached it, and its path spells the offsets that lead to it in the block. -/
theorem accesses_reported_when_reached (d : Decl) (maxJoins : Int) :
    (∀ t init, d.Walks maxJoins t init → (∃ w o, t.Stops init w o) ∧ ∀ w o i p f, t.Stops init w o →
      t.flow.points[i]? = some p → frameAt w.cells i = some f → t.flow.Reach p.address) ∧
    (∀ res, d.analyze maxJoins = .ok res →
      (∀ p f, (p, some f) ∈ res.entries → ¬ p.code.IsAccess) ∧
      ∀ t init w o i p f, d.Walks maxJoins t init → t.Stops init w o → t.flow.points[i]? = some p →
        frameAt w.cells i = some f → ¬ p.code.IsAccess) ∧
    ∀ unit p, d.analyze maxJoins = .error (.unsupported unit p) → unit = d.name ∧ p.code.IsAccess ∧
      ∃ b init w f, some b ∈ d.blocks ∧ d.Walks maxJoins (.ofBlock d.name d.vars maxJoins (some b)) init ∧
        (Task.ofBlock d.name d.vars maxJoins (some b)).Stops init w (some (.unsupported unit p)) ∧
        (Flow.ofBlock (some b)).points[w.pos]? = some p ∧ frameAt w.cells w.pos = some f ∧
        StandsAt b p.address.offsets p.code ∧
        p.address.path = ".".intercalate (p.address.offsets.map toString) := by
  refine ⟨fun t init hwalks => ⟨t.exists_stops init, fun w o i p f hstop hp hf => ?_⟩, fun res hres => ⟨?_, ?_⟩,
    fun unit p herror => ?_⟩
  · obtain ⟨b, -, rfl⟩ := hwalks.exists_mem_blocks
    exact hstop.visits.framesReached i p f hp hf
  · intro p f hp
    obtain ⟨t, init, w, i, -, hrun, hpoint, hf⟩ := Decl.exists_walk_of_entry hres hp
    exact Task.not_isAccess_of_run hrun hpoint hf
  · intro t init w o i p f hwalks hstop hp hf
    obtain ⟨v, hrun⟩ := hwalks.run_of_analyze hres
    cases hstop.of_run hrun
    exact Task.not_isAccess_of_run hrun hp hf
  · obtain ⟨t, init, hwalks, hrun⟩ := Decl.analyze_eq_error.1 herror
    obtain ⟨b, hb, rfl⟩ := hwalks.exists_mem_blocks
    obtain ⟨w, q, hw, hq, hs⟩ := Walk.run_eq_error.1 hrun
    obtain ⟨rfl, rfl, haccess, f, hf⟩ := Walk.step_eq_unsupported hs
    have hmem : p ∈ (Flow.ofBlock b).points := List.mem_of_getElem? hq
    cases b with
    | none => simp [Flow.ofBlock, blockPoints] at hmem
    | some b =>
      exact ⟨rfl, haccess, b, init, w, f, hb, hwalks, .failed hw hq hs, hq, hf,
        standsAt_iff_mem_points.2 ⟨p, hmem, rfl, rfl⟩, path_of_mem_points hmem⟩

/-- A function that measures a list in a loop, behind a jump over another access. -/
def measuring : FunctionDecl where
  name := "measure"
  params := [⟨"list", .array .int⟩]
  locals := [⟨"size", .int⟩]
  code := some [.goto "in", .compute .indexOf 1 [0] "", .label "in", .loop [.nop, .compute .lengthOf 1 [0] ""]]

theorem accesses_reported_when_reached_measuring :
    File.check ⟨"lists", [.function measuring]⟩ = .ok () ∧
    ∃ p : Point, (Decl.function measuring).analyze 0 = .error (.unsupported "measure" p) ∧ p.address.path = "3.1" ∧
      p.code.IsAccess ∧ ∃ t init w f, (Decl.function measuring).Walks 0 t init ∧
        t.Stops init w (some (.unsupported "measure" p)) ∧ frameAt w.cells w.pos = some f ∧ t.flow.Reach p.address := by
  have hrun : (measuring.task 0 measuring.code).run measuring.initialFrame =
      .error (.unsupported "measure" ⟨⟨[3], 1⟩, .compute .lengthOf 1 [0] ""⟩) :=
    (Walk.run_eq_runFor_bind _ 6 _).trans rfl
  have hbody : (Decl.function measuring).Walks 0 (measuring.task 0 measuring.code) measuring.initialFrame := .body rfl
  have hanalyze := Decl.analyze_eq_error.2 ⟨_, _, hbody, hrun⟩
  obtain ⟨hreach, -, herror⟩ := accesses_reported_when_reached (.function measuring) 0
  obtain ⟨-, haccess, b, init, w, f, -, hwalks, hstop, hp, hf, -, -⟩ := herror _ _ hanalyze
  exact ⟨rfl, _, hanalyze, by decide, haccess, _, init, w, f, hwalks, hstop, hf,
    (hreach _ _ hwalks).2 w _ w.pos _ f hstop hp hf⟩

end Narrowing
