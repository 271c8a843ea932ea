import Mathlib.Logic.Relation
import Narrowing.Analysis.Result
import Narrowing.Proofs.Check
import Narrowing.Proofs.Sane
import Narrowing.Proofs.Walk

/-!
# Safety of the analysis

A code that passed the check can be followed from every sane frame, unless it is an access or it breaks
(`Code.transfer_cases`): a switch on no operand breaks, and a comparison that is none of the six, if both its operands are
tracked.  What a code that can be followed sends is always delivered (`Delivery.exists_send`), so a walk has no other way
to fail, and it only ever holds sane frames (`Task.Holds.sane`).
-/

namespace Narrowing

open Relation

/-! ### Codes that break -/

namespace Code

/-- The code has no effect that the analysis could follow: it loads or updates a part of a value. -/
def IsAccess (c : Code) : Prop := ∃ m t as aux, c = .compute m t as aux ∧ m.isAccess = true

/-- The code cannot be followed from the frame `f`, with the given fault, although a check lets it pass. -/
inductive Breaks (f : Frame) : Code → Fault → Prop
  /-- A switch with no operand. -/
  | switch {arms d} : Breaks f (.switch noSlot arms d) .slot
  /-- A branch on two tracked operands by a comparison that is none of the six. -/
  | branch {a b op l r s} (ha : f.read a = .ok (some r)) (hb : f.read b = .ok (some s)) (hop : op ∉ Comparator.known) :
    Breaks f (.branch a op b l) (.comparator op)

variable {labels : List String} {numSlots : Nat} {f : Frame} {c : Code}

theorem Breaks.transfer {isInteger : Slot → Bool} {e : Fault} (h : c.Breaks f e) : c.transfer isInteger f = .error (.fault e) := by
  cases h with
  | switch => rfl
  | @branch a b op l r s ha hb hop =>
    cases op with
    | unknown n =>
      have hsends : branchSends f a (.unknown n) b l = .error (.comparator (.unknown n)) := by
        unfold branchSends
        rw [ha, hb]
        rfl
      simp only [Code.transfer, hsends]
      rfl
    | _ => exact absurd (by decide) hop

/-- From a sane frame a checked branch either sends something or breaks. -/
theorem branchSends_cases {a b : Slot} (op : Comparator) (l : String) (ha : f.Has a) (hb : f.Has b) :
    (∃ ss, branchSends f a op b l = .ok ss) ∨ (Code.branch a op b l).Breaks f (.comparator op) := by
  have hreada : f.read a = .ok (f.contents a.toNat) := Frame.read_eq_ok.2 ⟨ha, rfl⟩
  have hreadb : f.read b = .ok (f.contents b.toNat) := Frame.read_eq_ok.2 ⟨hb, rfl⟩
  cases hr : f.contents a.toNat with
  | none =>
    rw [hr] at hreada
    exact .inl ⟨_, bind_eq_ok.2 ⟨_, hreada, bind_eq_ok.2 ⟨_, hreadb, rfl⟩⟩⟩
  | some r =>
    rw [hr] at hreada
    cases hs : f.contents b.toNat with
    | none =>
      rw [hs] at hreadb
      exact .inl ⟨_, bind_eq_ok.2 ⟨_, hreada, bind_eq_ok.2 ⟨_, hreadb, rfl⟩⟩⟩
    | some s =>
      rw [hs] at hreadb
      by_cases hop : op ∈ Comparator.known
      · obtain ⟨⟨holds, fails⟩, hsplit⟩ : ∃ o, op.split r s = .ok o := by
          cases op with
          | unknown n => simp [Comparator.known] at hop
          | _ => exact ⟨_, rfl⟩
        obtain ⟨taken, htaken⟩ := Frame.exists_branch ha hb holds
        obtain ⟨passed, hpassed⟩ := Frame.exists_branch ha hb fails
        exact .inl ⟨_, bind_eq_ok.2 ⟨_, hreada, bind_eq_ok.2 ⟨_, hreadb,
          bind_eq_ok.2 ⟨_, hsplit, bind_eq_ok.2 ⟨_, htaken, bind_eq_ok.2 ⟨_, hpassed, rfl⟩⟩⟩⟩⟩⟩
      · exact .inr (.branch hreada hreadb hop)

/-- A checked code has an effect on a sane frame, or is an access, or breaks. -/
theorem transfer_cases (isInteger : Slot → Bool) (hc : c.InOrder labels numSlots) (hf : f.Sane numSlots) :
    (∃ ss, c.transfer isInteger f = .ok ss) ∨ (c.IsAccess ∧ c.transfer isInteger f = .error .unsupported) ∨
      ∃ e, c.Breaks f e := by
  have hhas : ∀ s, c.slots = .ok s → ∀ n ∈ s.defs ++ s.uses, f.Has n := fun s hs n hn => hf.has (hc.slots_lt s hs n hn)
  cases c with
  | const t v =>
    have ht : t ≠ noSlot := by
      intro ht
      simpa [absent?, ht] using hc.absent_none
    obtain ⟨g, hg⟩ := Frame.exists_set (v.toInt?.map .single) (hhas _ rfl t (by simp [mem_present_iff, ht]))
    rw [← load_eq_set] at hg
    exact .inl ⟨_, map_eq_ok.2 ⟨g, mapError_eq_ok.2 hg, rfl⟩⟩
  | assign t a =>
    obtain ⟨ht, ha⟩ := absent?_assign.1 hc.absent_none
    have hread : f.read a = .ok (f.contents a.toNat) :=
      Frame.read_eq_ok.2 ⟨hhas _ rfl a (by simp [mem_present_iff, ha]), rfl⟩
    obtain ⟨g, hg⟩ := Frame.exists_set (copied isInteger t a (f.contents a.toNat))
      (hhas _ rfl t (by simp [mem_present_iff, ht]))
    exact .inl ⟨_, map_eq_ok.2 ⟨g, mapError_eq_ok.2 (copy_eq_ok.2 ⟨_, hread, hg⟩), rfl⟩⟩
  | branch a op b l =>
    obtain ⟨ha, hb⟩ := absent?_branch.1 hc.absent_none
    rcases branchSends_cases op l (hhas _ rfl a (by simp [mem_present_iff, ha]))
      (hhas _ rfl b (by simp [mem_present_iff, hb])) with ⟨ss, hss⟩ | hbreak
    · exact .inl ⟨ss, mapError_eq_ok.2 hss⟩
    · exact .inr (.inr ⟨_, hbreak⟩)
  | switch a arms d =>
    by_cases ha : a = noSlot
    · subst ha
      exact .inr (.inr ⟨_, .switch⟩)
    · have hhasa : f.Has a := hhas _ rfl a (by simp [mem_present_iff, ha])
      obtain ⟨ss, hss⟩ := exists_armSends hhasa (f.contents a.toNat) d 0 arms
      exact .inl ⟨ss, mapError_eq_ok.2 (bind_eq_ok.2 ⟨_, Frame.read_eq_ok.2 ⟨hhasa, rfl⟩, hss⟩)⟩
  | compute m t as aux =>
    by_cases hm : m.isAccess = true
    · exact .inr (.inl ⟨⟨m, t, as, aux, rfl, hm⟩, by simp only [Code.transfer, hm, if_true]⟩)
    · refine .inl ?_
      simp only [Code.transfer, hm, Bool.false_eq_true, if_false]
      by_cases ht : t = noSlot
      · subst ht; exact ⟨_, rfl⟩
      · have hhast : f.Has t := hhas _ rfl t (by simp [mem_present_iff, ht])
        obtain ⟨g, hg⟩ := Frame.exists_set (forgotten isInteger t (f.contents t.toNat)) hhast
        have hread : f.read t = .ok (f.contents t.toNat) := Frame.read_eq_ok.2 ⟨hhast, rfl⟩
        exact ⟨_, map_eq_ok.2 ⟨g, mapError_eq_ok.2 ((forget_eq_ok ht).2 ⟨_, hread, hg⟩), rfl⟩⟩
  | hole => exact absurd rfl hc.not_hole
  | _ => exact .inl ⟨_, rfl⟩

end Code

/-! ### Deliveries -/

/-- The frame stands at a point, or it is the one that left the unit. -/
def Keeps (cells : List Cell) (exit : Option Frame) (g : Frame) : Prop :=
  (∃ c ∈ cells, c.frame = some g) ∨ exit = some g

/-- Every frame that is kept is sane. -/
def AllSane (numSlots : Nat) (cells : List Cell) (exit : Option Frame) : Prop :=
  ∀ g, Keeps cells exit g → g.Sane numSlots

theorem AllSane.frameAt {numSlots i : Nat} {cells : List Cell} {exit : Option Frame} {f : Frame}
    (h : AllSane numSlots cells exit) (hf : frameAt cells i = some f) : f.Sane numSlots := by
  obtain ⟨c, hc, hcf⟩ := Option.bind_eq_some_iff.1 hf
  exact h f (.inl ⟨c, List.mem_of_getElem? hc, hcf⟩)

/-- A sane frame can be delivered to a cell whose frame is sane, and the new one is sane too. -/
theorem Cell.exists_meet (limit : Nat) {numSlots : Nat} {c : Cell} {f : Frame} (hc : ∀ g, c.frame = some g → g.Sane numSlots)
    (hf : f.Sane numSlots) :
    ∃ o, c.meet limit f = .ok o ∧ ∀ c', o = some c' → ∀ g, c'.frame = some g → g.Sane numSlots := by
  cases hold : c.frame with
  | none =>
    refine ⟨some ⟨some f, c.changes⟩, by rw [meet, hold], fun c' hc' g hg => ?_⟩
    cases hc'
    cases hg
    exact hf
  | some old =>
    obtain ⟨new, hjoin, hnew⟩ := (hc old hold).join hf
    have hmeet : c.meet limit f = if new = old then .ok none
        else .ok (some ⟨some (if limit < c.changes + 1 then old.widen new else new), c.changes + 1⟩) := by
      rw [meet, hold]
      show old.join f >>= _ = _
      rw [hjoin]
      rfl
    rw [hmeet]
    by_cases heq : new = old
    · rw [if_pos heq]
      exact ⟨none, rfl, nofun⟩
    · rw [if_neg heq]
      refine ⟨_, rfl, fun c' hc' g hg => ?_⟩
      cases hc'
      cases hg
      split
      · exact (hc old hold).widen hnew
      · exact hnew

namespace Delivery

variable {numSlots : Nat} {t : Task} {a : Address} {d : Delivery} {s : Send} {f : Frame}

theorem exists_put (limit pos j : Nat) (hd : AllSane numSlots d.cells d.exit) (hf : f.Sane numSlots) :
    ∃ d', d.put limit pos j f = .ok d' ∧ AllSane numSlots d'.cells d'.exit := by
  unfold put
  cases hj : d.cells[j]? with
  | none => exact ⟨d, rfl, hd⟩
  | some c =>
    have hc : ∀ g, c.frame = some g → g.Sane numSlots := fun g hg => hd g (.inl ⟨c, List.mem_of_getElem? hj, hg⟩)
    obtain ⟨o, hmeet, ho⟩ := Cell.exists_meet limit hc hf
    cases o with
    | none => exact ⟨d, bind_eq_ok.2 ⟨none, hmeet, rfl⟩, hd⟩
    | some c' =>
      refine ⟨_, bind_eq_ok.2 ⟨some c', hmeet, rfl⟩, fun g hg => ?_⟩
      rcases hg with ⟨c₁, hc₁, hg⟩ | hg
      · rcases List.mem_or_eq_of_mem_set hc₁ with hc₁ | rfl
        · exact hd g (.inl ⟨c₁, hc₁, hg⟩)
        · exact ho c₁ rfl g hg
      · exact hd g (.inr hg)

theorem exists_leave (hd : AllSane numSlots d.cells d.exit) (hf : f.Sane numSlots) :
    ∃ d', d.leave f = .ok d' ∧ AllSane numSlots d'.cells d'.exit := by
  unfold leave
  cases hexit : d.exit with
  | none =>
    refine ⟨_, rfl, fun g hg => ?_⟩
    rcases hg with hg | hg
    · exact hd g (.inl hg)
    · cases hg; exact hf
  | some k =>
    obtain ⟨new, hjoin, hnew⟩ := (hd k (.inr hexit)).join hf
    refine ⟨_, bind_eq_ok.2 ⟨new, hjoin, rfl⟩, fun g hg => ?_⟩
    rcases hg with hg | hg
    · exact hd g (.inl hg)
    · cases hg; exact hnew

/-- What leads somewhere is delivered there, and the frames stay sane. -/
theorem exists_send {o : Option Nat} (pos : Nat) (hd : AllSane numSlots d.cells d.exit) (hs : s.frame.Sane numSlots)
    (hfollow : t.flow.follow t.unit a s.edge = .ok o) :
    ∃ d', send t pos a d s = .ok d' ∧ AllSane numSlots d'.cells d'.exit := by
  obtain ⟨edge, frame⟩ := s
  cases edge with
  | exit => exact exists_leave hd hs
  | _ =>
    cases o with
    | none => exact ⟨d, bind_eq_ok.2 ⟨none, hfollow, rfl⟩, hd⟩
    | some j =>
      obtain ⟨d', hput, hd'⟩ := exists_put t.limit pos j hd hs
      exact ⟨d', bind_eq_ok.2 ⟨some j, hfollow, hput⟩, hd'⟩

/-- The sends of a point are delivered one after the other. -/
theorem exists_foldlM_send {ss : List Send} (pos : Nat) (hd : AllSane numSlots d.cells d.exit)
    (hss : ∀ s ∈ ss, s.frame.Sane numSlots ∧ ∃ o, t.flow.follow t.unit a s.edge = .ok o) :
    ∃ d', ss.foldlM (send t pos a) d = .ok d' ∧ AllSane numSlots d'.cells d'.exit := by
  induction ss generalizing d with
  | nil => exact ⟨d, rfl, hd⟩
  | cons s ss ih =>
    obtain ⟨hs, o, hfollow⟩ := hss s List.mem_cons_self
    obtain ⟨d₁, hsend, hd₁⟩ := exists_send pos hd hs hfollow
    obtain ⟨d', hrest, hd'⟩ := ih hd₁ fun s' hs' => hss s' (List.mem_cons_of_mem s hs')
    refine ⟨d', ?_, hd'⟩
    rw [List.foldlM_cons]
    exact bind_eq_ok.2 ⟨d₁, hsend, hrest⟩

end Delivery

/-- Every edge that a code sends along is one it has: to the next code, to one of its targets, into its body or out. -/
theorem Sends.edge_cases {isInteger : Slot → Bool} {f : Frame} {c : Code} {s : Send} (h : Sends isInteger f c s) :
    s.edge = .next ∨ (∃ l n, s.edge = .jump l n ∧ l ∈ c.targets) ∨
      (s.edge = .enter ∧ (c = .bareLoop ∨ ∃ body, c = .loop body)) ∨ s.edge = .exit := by
  cases h with
  | goto => exact .inr (.inl ⟨_, _, rfl, by simp [Code.targets]⟩)
  | taken => exact .inr (.inl ⟨_, _, rfl, by simp [Code.targets]⟩)
  | takenBlindly => exact .inr (.inl ⟨_, _, rfl, by simp [Code.targets]⟩)
  | arm _ harm _ =>
    have hmem := List.mem_of_getElem? harm
    exact .inr (.inl ⟨_, _, rfl, List.mem_append_left _ (List.mem_map_of_mem hmem)⟩)
  | default => exact .inr (.inl ⟨_, _, rfl, by simp [Code.targets]⟩)
  | loop => exact .inr (.inr (.inl ⟨rfl, .inr ⟨_, rfl⟩⟩))
  | bareLoop => exact .inr (.inr (.inl ⟨rfl, .inl rfl⟩))
  | ret => exact .inr (.inr (.inr rfl))
  | _ => exact .inl rfl

/-- What a checked code sends leads somewhere, or to the end of the block. -/
theorem Sends.exists_follow {isInteger : Slot → Bool} {b : Option Block} {numSlots i : Nat} {unit : String} {f : Frame}
    {p : Point} {s : Send} (h : Sends isInteger f p.code s) (hp : (Flow.ofBlock b).points[i]? = some p)
    (hc : p.code.InOrder (Flow.ofBlock b).labelNames numSlots) :
    ∃ o, (Flow.ofBlock b).follow unit p.address s.edge = .ok o := by
  rcases h.edge_cases with he | ⟨l, n, he, hl⟩ | ⟨he, hloop⟩ | he
  · rw [he]; exact ⟨_, rfl⟩
  · obtain ⟨a, ha⟩ := Flow.exists_label? (hc.targets_mem l hl)
    rw [he, Flow.follow, ha]
    exact ⟨_, rfl⟩
  · obtain ⟨o, ho⟩ := Flow.exists_enter? (Flow.codeAt?_address hp) hloop
    rw [he, Flow.follow, ho]
    exact ⟨_, rfl⟩
  · rw [he]; exact ⟨_, rfl⟩

/-! ### Walks -/

/-- One step of a walk. -/
def Walk.Next (t : Task) (w w' : Walk) : Prop := ∃ p, t.flow.points[w.pos]? = some p ∧ w.step t p = .ok w'

/-- A walk fails if and only if it comes to a point over which it cannot step. -/
theorem Walk.run_eq_error {t : Task} {w : Walk} {e : AnalysisError} :
    w.run t = .error e ↔
      ∃ v p, ReflTransGen (Next t) w v ∧ t.flow.points[v.pos]? = some p ∧ v.step t p = .error e := by
  constructor
  · intro h
    fun_induction Walk.run t w with
    | case1 w hp => cases h
    | case2 w p hp e' hs => cases h; exact ⟨w, p, .refl, hp, hs⟩
    | case3 w p hp w' hs ih =>
      obtain ⟨v, q, hreach, hq, herror⟩ := ih h
      exact ⟨v, q, .head ⟨p, hp, hs⟩ hreach, hq, herror⟩
  · rintro ⟨v, p, hreach, hp, herror⟩
    induction hreach using ReflTransGen.head_induction_on with
    | refl =>
      rw [run_of_some hp, herror]
      rfl
    | head hnext _ ih =>
      obtain ⟨q, hq, hs⟩ := hnext
      rw [run_of_some hq, hs]
      exact ih

theorem Walk.reaches_of_run {t : Task} {w v : Walk} (h : w.run t = .ok v) : ReflTransGen (Next t) w v := by
  refine (run_induction (motive := fun u => ReflTransGen (Next t) w u) (fun u p u' hp hs hu => ?_) h .refl).1
  exact hu.tail ⟨p, hp, hs⟩

namespace Task

/-- The walk from the given frame comes to the state `w`. -/
def Visits (t : Task) (init : Frame) : Walk → Prop :=
  ReflTransGen (Walk.Next t) (Walk.start t.flow.points.length init)

/-- The walk from the given frame holds a frame: between two steps, on its way from a point, or when some of the sends of a
point are delivered. -/
inductive Holds (t : Task) (init : Frame) : Frame → Prop
  | kept {w g} (hw : t.Visits init w) (hg : Keeps w.cells w.exit g) : Holds t init g
  | sent {w p f s} (hw : t.Visits init w) (hp : t.flow.points[w.pos]? = some p) (hf : frameAt w.cells w.pos = some f)
    (hs : Sends t.isInteger f p.code s) : Holds t init s.frame
  | delivered {w p f ss n d g} (hw : t.Visits init w) (hp : t.flow.points[w.pos]? = some p)
    (hf : frameAt w.cells w.pos = some f) (hss : p.code.transfer t.isInteger f = .ok ss)
    (hd : (ss.take n).foldlM (Delivery.send t w.pos p.address) ⟨w.cells, w.exit, none⟩ = .ok d)
    (hg : Keeps d.cells d.exit g) : Holds t init g

/-- The walk from the given frame comes to a point whose code breaks. -/
def Breaks (t : Task) (init : Frame) (e : Fault) : Prop :=
  ∃ w p f, t.Visits init w ∧ t.flow.points[w.pos]? = some p ∧ frameAt w.cells w.pos = some f ∧ p.code.Breaks f e

end Task

section Block

variable {unit : String} {vars : List Variable} {maxJoins : Int} {b : Option Block} {numSlots : Nat}
  (hb : blockFlaw? numSlots b = none)
include hb

/-- Some of the sends of a checked point can be delivered, and the frames stay sane. -/
theorem Walk.exists_deliveries {w : Walk} {p : Point} {f : Frame} {ss : List Send}
    (hw : AllSane numSlots w.cells w.exit) (hp : (Flow.ofBlock b).points[w.pos]? = some p)
    (hf : frameAt w.cells w.pos = some f) (hss : ∀ s ∈ ss, Sends (Task.ofBlock unit vars maxJoins b).isInteger f p.code s) :
    ∃ d, ss.foldlM (Delivery.send (.ofBlock unit vars maxJoins b) w.pos p.address) ⟨w.cells, w.exit, none⟩ = .ok d ∧
      AllSane numSlots d.cells d.exit := by
  have hcode := blockFlaw?_eq_none hb p (List.mem_of_getElem? hp)
  refine Delivery.exists_foldlM_send w.pos hw fun s hs => ⟨(hss s hs).sane (hw.frameAt hf), ?_⟩
  exact (hss s hs).exists_follow hp hcode

/-- A walk over a checked block steps on, or comes to an access, or to a code that breaks. -/
theorem Walk.step_outcomes {w : Walk} {p : Point} (hw : AllSane numSlots w.cells w.exit)
    (hp : (Flow.ofBlock b).points[w.pos]? = some p) :
    (∃ w', w.step (.ofBlock unit vars maxJoins b) p = .ok w' ∧ AllSane numSlots w'.cells w'.exit) ∨
      (p.code.IsAccess ∧ w.step (.ofBlock unit vars maxJoins b) p = .error (.unsupported unit p)) ∨
      ∃ f e, frameAt w.cells w.pos = some f ∧ p.code.Breaks f e ∧
        w.step (.ofBlock unit vars maxJoins b) p = .error (.fault e) := by
  unfold step
  cases hf : frameAt w.cells w.pos with
  | none =>
    rw [show (w.cells[w.pos]?).bind Cell.frame = none from hf]
    exact .inl ⟨_, rfl, hw⟩
  | some f =>
    rw [show (w.cells[w.pos]?).bind Cell.frame = some f from hf]
    have hcode := blockFlaw?_eq_none hb p (List.mem_of_getElem? hp)
    rcases Code.transfer_cases (Task.ofBlock unit vars maxJoins b).isInteger hcode (hw.frameAt hf) with
      ⟨ss, hss⟩ | ⟨haccess, hss⟩ | ⟨e, hbreak⟩
    · obtain ⟨d, hd, hsane⟩ := Walk.exists_deliveries hb hw hp hf fun s hs => (mem_transfer hss s).1 hs
      dsimp only
      rw [hss]
      dsimp only
      rw [hd]
      exact .inl ⟨_, rfl, hsane⟩
    · dsimp only
      rw [hss]
      exact .inr (.inl ⟨haccess, rfl⟩)
    · dsimp only
      rw [hbreak.transfer]
      exact .inr (.inr ⟨f, e, rfl, hbreak, rfl⟩)

variable {init : Frame} (hinit : init.Sane numSlots)
include hinit

/-- The walk over a checked block keeps sane frames only. -/
theorem Task.Visits.allSane {w : Walk} (h : (Task.ofBlock unit vars maxJoins b).Visits init w) :
    AllSane numSlots w.cells w.exit := by
  induction h with
  | refl =>
    rintro g (⟨c, hc, hg⟩ | hg)
    · rcases List.mem_or_eq_of_mem_set hc with hc | rfl
      · rw [List.eq_of_mem_replicate hc] at hg
        cases hg
      · cases hg
        exact hinit
    · cases hg
  | tail _ hnext ih =>
    obtain ⟨p, hp, hs⟩ := hnext
    rcases Walk.step_outcomes hb ih hp with ⟨w', hs', hsane⟩ | ⟨-, hs'⟩ | ⟨f, e, -, -, hs'⟩
    · rw [hs] at hs'
      cases hs'
      exact hsane
    · rw [hs] at hs'; cases hs'
    · rw [hs] at hs'; cases hs'

theorem Task.Holds.sane {g : Frame} (h : (Task.ofBlock unit vars maxJoins b).Holds init g) : g.Sane numSlots := by
  cases h with
  | kept hw hg => exact hw.allSane hb hinit g hg
  | sent hw _ hf hs => exact hs.sane ((hw.allSane hb hinit).frameAt hf)
  | @delivered w p f ss n d g hw hp hf hss hd hg =>
    have hmem : ∀ s ∈ ss.take n, Sends (Task.ofBlock unit vars maxJoins b).isInteger f p.code s :=
      fun s hs => (mem_transfer hss s).1 (List.mem_of_mem_take hs)
    obtain ⟨d', hd', hsane⟩ := Walk.exists_deliveries hb (hw.allSane hb hinit) hp hf hmem
    rw [hd] at hd'
    cases hd'
    exact hsane g hg

/-- A walk over a checked block fails at an access, or where a code breaks. -/
theorem Task.run_eq_error {e : AnalysisError} :
    (Task.ofBlock unit vars maxJoins b).run init = .error e →
      (∃ p, p.code.IsAccess ∧ e = .unsupported unit p) ∨
        ∃ k, e = .fault k ∧ (Task.ofBlock unit vars maxJoins b).Breaks init k := by
  intro h
  obtain ⟨w, p, hw, hp, hs⟩ := Walk.run_eq_error.1 h
  rcases Walk.step_outcomes hb (Task.Visits.allSane hb hinit hw) hp with ⟨w', hs', -⟩ | ⟨hacc, hs'⟩ | ⟨f, k, hf, hk, hs'⟩
  · rw [hs] at hs'; cases hs'
  · rw [hs] at hs'
    cases hs'
    exact .inl ⟨p, hacc, rfl⟩
  · rw [hs] at hs'
    cases hs'
    exact .inr ⟨k, rfl, w, p, f, hw, hp, hf, hk⟩

omit hb hinit in
theorem Task.Breaks.run {t : Task} {k : Fault} (h : t.Breaks init k) : t.run init = .error (.fault k) := by
  obtain ⟨w, p, f, hw, hp, hf, hk⟩ := h
  refine Walk.run_eq_error.2 ⟨w, p, hw, hp, ?_⟩
  unfold Walk.step
  rw [show (w.cells[w.pos]?).bind Cell.frame = some f from hf]
  dsimp only
  rw [hk.transfer]

theorem Task.run_exit_sane {w : Walk} {g : Frame} (h : (Task.ofBlock unit vars maxJoins b).run init = .ok w)
    (hg : w.exit = some g) : g.Sane numSlots :=
  Task.Visits.allSane hb hinit (Walk.reaches_of_run h) g (.inr hg)

end Block

/-! ### Declarations -/

theorem bind_eq_error {ε α β : Type} {x : Except ε α} {k : α → Except ε β} {e : ε} :
    (x >>= k) = .error e ↔ x = .error e ∨ ∃ a, x = .ok a ∧ k a = .error e := by
  cases x <;> simp [bind, Except.bind]

namespace FunctionDecl

variable {f : FunctionDecl} {maxJoins : Int}

/-- Assuming preconditions fails at one of them, and those before it have left a frame. -/
theorem assume_eq_error {frame : Frame} {bs : List (Option Block)} {e : AnalysisError} :
    f.assume maxJoins frame bs = .error e ↔
      ∃ pre b post left, bs = pre ++ b :: post ∧ f.assume maxJoins frame pre = .ok (some left) ∧
        (f.task maxJoins b).run left = .error e := by
  induction bs generalizing frame with
  | nil =>
    constructor
    · intro h; cases h
    · rintro ⟨pre, b, post, left, hbs, -⟩
      simp at hbs
  | cons b bs ih =>
    unfold assume
    rw [bind_eq_error]
    constructor
    · rintro (h | ⟨w, hw, h⟩)
      · exact ⟨[], b, bs, frame, rfl, rfl, h⟩
      · cases hexit : w.exit with
        | none => rw [hexit] at h; cases h
        | some left =>
          rw [hexit] at h
          obtain ⟨pre, b', post, left', rfl, hpre, herror⟩ := ih.1 h
          refine ⟨b :: pre, b', post, left', rfl, bind_eq_ok.2 ⟨w, hw, ?_⟩, herror⟩
          rw [hexit]
          exact hpre
    · rintro ⟨pre, b', post, left, hbs, hpre, herror⟩
      cases pre with
      | nil =>
        cases hbs
        cases hpre
        exact .inl herror
      | cons b₀ pre =>
        cases hbs
        obtain ⟨w, hw, hpre⟩ := bind_eq_ok.1 hpre
        refine .inr ⟨w, hw, ?_⟩
        cases hexit : w.exit with
        | none => rw [hexit] at hpre; cases hpre
        | some mid =>
          rw [hexit] at hpre
          exact ih.2 ⟨pre, b', post, left, rfl, hpre, herror⟩

theorem assume_sane {frame left : Frame} {bs : List (Option Block)} (hbs : ∀ b ∈ bs, blockFlaw? f.numSlots b = none)
    (hframe : frame.Sane f.numSlots) (h : f.assume maxJoins frame bs = .ok (some left)) : left.Sane f.numSlots := by
  induction bs generalizing frame with
  | nil => cases h; exact hframe
  | cons b bs ih =>
    obtain ⟨w, hw, h⟩ := bind_eq_ok.1 h
    cases hexit : w.exit with
    | none => rw [hexit] at h; cases h
    | some mid =>
      rw [hexit] at h
      have hmid := Task.run_exit_sane (hbs b List.mem_cons_self) hframe hw hexit
      exact ih (fun b' hb' => hbs b' (List.mem_cons_of_mem b hb')) hmid h

end FunctionDecl

namespace Decl

/-- The frame before the first block of a unit. -/
def initialFrame : Decl → Frame
  | function f => f.initialFrame
  | type t => t.initialFrame

theorem sane_initialFrame (d : Decl) : d.initialFrame.Sane d.numSlots := by
  have hslot : ∀ (ts : List Variable) (ls : List Variable) (i : Nat) (r : Interval),
      ((ts.map (·.type.range?) ++ ls.map fun _ => none)[i]?).join = some r → r.Proper := by
    intro ts ls i r h
    obtain ho := Option.join_eq_some_iff.1 h
    rcases List.mem_append.1 (List.mem_of_getElem? ho) with hm | hm
    · obtain ⟨v, -, hv⟩ := List.mem_map.1 hm
      exact Ty.proper_range hv
    · obtain ⟨v, -, hv⟩ := List.mem_map.1 hm
      cases hv
  cases d with
  | function f =>
    refine ⟨?_, hslot f.params f.locals⟩
    simp [initialFrame, FunctionDecl.initialFrame, Frame.size, numSlots, vars, FunctionDecl.vars]
  | type t =>
    refine ⟨?_, hslot [⟨"$", t.type⟩] t.locals⟩
    simp [initialFrame, TypeDecl.initialFrame, Frame.size, numSlots, vars, TypeDecl.vars]

/-- The analysis of a declaration walks a block from a frame: a precondition from the frame that the ones before it left,
the body from the frame that all of them left, an invariant from the first frame. -/
inductive Walks (maxJoins : Int) : Decl → Task → Frame → Prop
  | precondition {f pre b post frame} (hpre : f.preconditions = pre ++ b :: post)
    (h : f.assume maxJoins f.initialFrame pre = .ok (some frame)) :
    Walks maxJoins (.function f) (f.task maxJoins b) frame
  | body {f frame} (h : f.assume maxJoins f.initialFrame f.preconditions = .ok (some frame)) :
    Walks maxJoins (.function f) (f.task maxJoins f.code) frame
  | invariant {t} : Walks maxJoins (.type t) (.ofBlock t.name t.vars maxJoins t.invariant) t.initialFrame

variable {d : Decl} {maxJoins : Int}

/-- An analysis fails if and only if one of its walks does. -/
theorem analyze_eq_error {e : AnalysisError} :
    d.analyze maxJoins = .error e ↔ ∃ t init, d.Walks maxJoins t init ∧ t.run init = .error e := by
  cases d with
  | type t =>
    show (_ >>= _) = _ ↔ _
    rw [bind_eq_error]
    constructor
    · rintro (h | ⟨w, -, h⟩)
      · exact ⟨_, _, .invariant, h⟩
      · cases h
    · rintro ⟨_, _, hwalks, h⟩
      cases hwalks
      exact .inl h
  | function f =>
    show (_ >>= _) = _ ↔ _
    rw [bind_eq_error, FunctionDecl.assume_eq_error]
    constructor
    · rintro (⟨pre, b, post, left, hpre, hleft, h⟩ | ⟨o, ho, h⟩)
      · exact ⟨_, _, .precondition hpre hleft, h⟩
      · cases o with
        | none => cases h
        | some frame =>
          rcases bind_eq_error.1 h with h | ⟨w, -, h⟩
          · exact ⟨_, _, .body ho, h⟩
          · cases h
    · rintro ⟨_, _, hwalks, h⟩
      cases hwalks with
      | precondition hpre hleft => exact .inl ⟨_, _, _, _, hpre, hleft, h⟩
      | body ho => exact .inr ⟨_, ho, bind_eq_error.2 (.inl h)⟩

/-- Every walk of a checked declaration is over a checked block and starts from a sane frame. -/
theorem Walks.exists_block {t : Task} {init : Frame} (h : d.Walks maxJoins t init) (hd : d.flaw? = none) :
    ∃ b, t = .ofBlock d.name d.vars maxJoins b ∧ blockFlaw? d.numSlots b = none ∧ init.Sane d.numSlots := by
  have hblocks : ∀ b ∈ d.blocks, blockFlaw? d.numSlots b = none := fun b hb => blockFlaw?_of_mem hd hb
  have hinit := sane_initialFrame d
  cases h with
  | @precondition f pre b post frame hpre hframe =>
    have hmem : ∀ b' ∈ pre ++ b :: post, b' ∈ Decl.blocks (.function f) :=
      fun b' hb' => List.mem_append_left _ (hpre ▸ hb')
    refine ⟨b, rfl, hblocks b (hmem b (by simp)), ?_⟩
    exact FunctionDecl.assume_sane (fun b' hb' => hblocks b' (hmem b' (List.mem_append_left _ hb'))) hinit hframe
  | @body f frame hframe =>
    refine ⟨f.code, rfl, hblocks f.code (by simp [blocks]), ?_⟩
    exact FunctionDecl.assume_sane (fun b' hb' => hblocks b' (List.mem_append_left _ hb')) hinit hframe
  | @invariant t => exact ⟨t.invariant, rfl, hblocks t.invariant (by simp [blocks]), hinit⟩

/-- The frames of a result are frames that a walk of the analysis kept. -/
theorem holds_of_analyze {res : AnalysisResult} {f : Frame} (h : d.analyze maxJoins = .ok res) (hf : some f ∈ res.frames) :
    ∃ t init, d.Walks maxJoins t init ∧ t.Holds init f := by
  cases d with
  | type t =>
    obtain ⟨w, hw, h⟩ := bind_eq_ok.1 h
    cases h
    obtain ⟨c, hc, hcf⟩ := List.mem_map.1 hf
    exact ⟨_, _, .invariant, .kept (Walk.reaches_of_run hw) (.inl ⟨c, hc, hcf⟩)⟩
  | function fn =>
    obtain ⟨o, ho, h⟩ := bind_eq_ok.1 h
    cases o with
    | none =>
      cases h
      obtain ⟨p, -, hp⟩ := List.mem_map.1 hf
      cases hp
    | some frame =>
      obtain ⟨w, hw, h⟩ := bind_eq_ok.1 h
      cases h
      obtain ⟨c, hc, hcf⟩ := List.mem_map.1 hf
      exact ⟨_, _, .body ho, .kept (Walk.reaches_of_run hw) (.inl ⟨c, hc, hcf⟩)⟩

end Decl

/-- **Checked units are analysed safely.**  The analysis of a declaration in a checked file gives a result or meets an
access, and it faults if and only if one of its walks comes to a code that breaks: a switch on no operand, or a comparison
of two tracked slots that is none of the six.  Every frame that a walk holds at any time has the slots of the unit, and the
ends of its intervals are in order and not infinite on the wrong side. -/
theorem checked_analysis_safe {file : File} {d : Decl} (hcheck : file.check = .ok ()) (hd : d ∈ file.decls)
    (maxJoins : Int) :
    ((∃ res, d.analyze maxJoins = .ok res) ∨
      (∃ p, p.code.IsAccess ∧ d.analyze maxJoins = .error (.unsupported d.name p)) ∨
      ∃ e, d.analyze maxJoins = .error (.fault e)) ∧
    (∀ e, d.analyze maxJoins = .error (.fault e) ↔ ∃ t init, d.Walks maxJoins t init ∧ t.Breaks init e) ∧
    (∀ t init f, d.Walks maxJoins t init → t.Holds init f → f.size = d.numSlots ∧
      ∀ n r, f.read n = .ok (some r) → r.low ≤ r.high ∧ r.low ≠ .posInf ∧ r.high ≠ .negInf) ∧
    ∀ res f, d.analyze maxJoins = .ok res → some f ∈ res.frames →
      ∃ t init, d.Walks maxJoins t init ∧ t.Holds init f := by
  have hflaw := File.flaw?_of_check hcheck d hd
  have herror : ∀ e, d.analyze maxJoins = .error e → (∃ p, p.code.IsAccess ∧ e = .unsupported d.name p) ∨
      ∃ k, e = .fault k ∧ ∃ t init, d.Walks maxJoins t init ∧ t.Breaks init k := by
    intro e he
    obtain ⟨t, init, hwalks, hrun⟩ := Decl.analyze_eq_error.1 he
    obtain ⟨b, rfl, hb, hinit⟩ := hwalks.exists_block hflaw
    rcases Task.run_eq_error hb hinit hrun with haccess | ⟨k, rfl, hbreaks⟩
    · exact .inl haccess
    · exact .inr ⟨k, rfl, _, init, hwalks, hbreaks⟩
  refine ⟨?_, fun e => ⟨fun he => ?_, ?_⟩, fun t init f hwalks hf => ?_, fun res f => Decl.holds_of_analyze⟩
  · cases hres : d.analyze maxJoins with
    | ok res => exact .inl ⟨res, rfl⟩
    | error e =>
      rcases herror e hres with ⟨p, hp, rfl⟩ | ⟨k, rfl, -⟩
      · exact .inr (.inl ⟨p, hp, rfl⟩)
      · exact .inr (.inr ⟨k, rfl⟩)
  · rcases herror _ he with ⟨p, -, hp⟩ | ⟨k, hk, hbreaks⟩
    · cases hp
    · cases hk
      exact hbreaks
  · rintro ⟨t, init, hwalks, hbreaks⟩
    exact Decl.analyze_eq_error.2 ⟨t, init, hwalks, hbreaks.run⟩
  · obtain ⟨b, rfl, hb, hinit⟩ := hwalks.exists_block hflaw
    have hsane := Task.Holds.sane hb hinit hf
    refine ⟨hsane.size_eq, fun n r hr => ?_⟩
    exact ⟨r.low_le_high, hsane.read hr⟩

/-- A function with a switch on no operand, which passes the check. -/
def blindSwitch : FunctionDecl where
  name := "pick"
  params := [⟨"x", .nominal "u8"⟩]
  code := some [.switch noSlot [⟨.int 3, "end"⟩] "end", .label "end", .ret [0]]

theorem checked_analysis_safe_blindSwitch :
    File.check ⟨"picks", [.function blindSwitch]⟩ = .ok () ∧
    (Decl.function blindSwitch).analyze 0 = .error (.fault .slot) ∧
    ∃ t, (Decl.function blindSwitch).Walks 0 t blindSwitch.initialFrame ∧
      t.Holds blindSwitch.initialFrame blindSwitch.initialFrame ∧ blindSwitch.initialFrame.size = 1 ∧
      ∀ n r, blindSwitch.initialFrame.read n = .ok (some r) → r.low ≤ r.high ∧ r.low ≠ .posInf ∧ r.high ≠ .negInf := by
  have hcheck : File.check ⟨"picks", [.function blindSwitch]⟩ = .ok () := rfl
  obtain ⟨-, hfault, hholds, -⟩ := checked_analysis_safe hcheck List.mem_cons_self 0
  have hwalks : (Decl.function blindSwitch).Walks 0 (blindSwitch.task 0 blindSwitch.code) blindSwitch.initialFrame :=
    .body rfl
  have hkept : (blindSwitch.task 0 blindSwitch.code).Holds blindSwitch.initialFrame blindSwitch.initialFrame :=
    .kept .refl (.inl ⟨_, List.mem_cons_self, rfl⟩)
  refine ⟨hcheck, (hfault .slot).2 ⟨_, _, hwalks, ?_⟩, _, hwalks, hkept, hholds _ _ _ hwalks hkept⟩
  exact ⟨_, _, blindSwitch.initialFrame, .refl, rfl, rfl, .switch⟩

end Narrowing
