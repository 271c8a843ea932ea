import Narrowing.Proofs.Execution
import Narrowing.Proofs.Solution

/-!
# Soundness of the analysis

A frame covers a store if each slot it tracks holds an integer of the slot's interval; only the interval of all integers
makes room for other values.  Whatever a code does to a covered store, it sends a frame along the same edge that covers
the new one (`Code.Acts.sends`).  The frames of a walk that ended absorb what they send, so they cover every store that
a run brings to their places (`Walk.covers_run`).
-/

namespace Narrowing

open Relation

variable {Obj : Type}

/-! ### Values and intervals -/

namespace Datum

/-- The value may stand in a slot with the given interval. -/
def Within (v : Datum Obj) (r : Interval) : Prop := v.IsIn r ∨ r = .top

theorem within_top (v : Datum Obj) : v.Within .top := .inr rfl

theorem within_of_mem {x : Int} {r : Interval} (h : x ∈ r) : (const (.int x) : Datum Obj).Within r := .inl ⟨x, rfl, h⟩

theorem Within.mem {x : Int} {r : Interval} (h : (const (.int x) : Datum Obj).Within r) : x ∈ r := by
  rcases h with ⟨y, hy, hmem⟩ | rfl
  · cases hy
    exact hmem
  · exact Interval.mem_top x

theorem Within.mono {v : Datum Obj} {r s : Interval} (h : v.Within r) (hle : r ≤ s) : v.Within s := by
  rcases h with ⟨x, rfl, hx⟩ | rfl
  · exact within_of_mem (Interval.mem_of_le hle hx)
  · exact .inr (Interval.eq_top_of_top_le hle)

theorem Within.inter? {v : Datum Obj} {r s : Interval} (hr : v.Within r) (hs : v.Within s) :
    ∃ k, r.inter? s = some k ∧ v.Within k := by
  rcases hr with ⟨x, rfl, hx⟩ | rfl
  · obtain ⟨k, hk, hxk⟩ := Interval.inter?_of_mem hx hs.mem
    exact ⟨k, hk, within_of_mem hxk⟩
  · rcases hs with ⟨x, rfl, hx⟩ | rfl
    · obtain ⟨k, hk, hxk⟩ := Interval.inter?_of_mem (Interval.mem_top x) hx
      exact ⟨k, hk, within_of_mem hxk⟩
    · exact ⟨.top, Interval.inter?_top_top, within_top v⟩

end Datum

/-- The refined operands of a comparison make room for the two values. -/
def Outcome.Admits (o : Outcome) (v v' : Datum Obj) : Prop := ∃ l k, o = some (l, k) ∧ v.Within l ∧ v'.Within k

namespace Outcome.Admits

theorem unchanged {v v' : Datum Obj} {r s : Interval} (hv : v.Within r) (hv' : v'.Within s) :
    Outcome.Admits (some (r, s)) v v' := ⟨r, s, rfl, hv, hv'⟩

theorem equal {v : Datum Obj} {r s : Interval} (hr : v.Within r) (hs : v.Within s) : (Outcome.equal r s).Admits v v := by
  obtain ⟨k, hk, hvk⟩ := hr.inter? hs
  exact ⟨k, k, Outcome.equal_eq_some.2 ⟨hk, rfl⟩, hvk, hvk⟩

theorem less {x y : Int} {r s : Interval} (hx : (.const (.int x) : Datum Obj).Within r)
    (hy : (.const (.int y) : Datum Obj).Within s) (h : x < y) :
    (Outcome.less r s).Admits (.const (.int x) : Datum Obj) (.const (.int y)) := by
  obtain ⟨l, k, ho, hl, hk⟩ := Outcome.less_of_lt hx.mem hy.mem h
  exact ⟨l, k, ho, Datum.within_of_mem hl, Datum.within_of_mem hk⟩

theorem lessEqual {x y : Int} {r s : Interval} (hx : (.const (.int x) : Datum Obj).Within r)
    (hy : (.const (.int y) : Datum Obj).Within s) (h : x ≤ y) :
    (Outcome.lessEqual r s).Admits (.const (.int x) : Datum Obj) (.const (.int y)) := by
  obtain ⟨l, k, ho, hl, hk⟩ := Outcome.lessEqual_of_le hx.mem hy.mem h
  exact ⟨l, k, ho, Datum.within_of_mem hl, Datum.within_of_mem hk⟩

theorem swap {o : Outcome} {v v' : Datum Obj} (h : o.Admits v v') : o.swap.Admits v' v := by
  obtain ⟨l, k, ho, hl, hk⟩ := h
  exact ⟨k, l, Outcome.swap_eq_some.2 ho, hk, hl⟩

end Outcome.Admits

/-- The side that a comparison takes makes room for the compared values. -/
theorem Comparator.Decides.split {op : Comparator} {v v' : Datum Obj} {b : Bool} {r s : Interval} {holds fails : Outcome}
    (h : op.Decides v v' b) (hv : v.Within r) (hv' : v'.Within s) (hs : op.split r s = .ok (holds, fails)) :
    (if b then holds else fails).Admits v v' := by
  cases h with
  | eq_holds => cases hs; exact .equal hv hv'
  | eq_fails => cases hs; exact .unchanged hv hv'
  | ne_holds => cases hs; exact .unchanged hv hv'
  | ne_fails => cases hs; exact .equal hv hv'
  | lt x y =>
    cases hs
    by_cases hxy : x < y
    · rw [if_pos (decide_eq_true hxy)]
      exact .less hv hv' hxy
    · rw [if_neg (by simpa using hxy)]
      exact (Outcome.Admits.lessEqual hv' hv (Int.not_lt.1 hxy)).swap
  | le x y =>
    cases hs
    by_cases hxy : x ≤ y
    · rw [if_pos (decide_eq_true hxy)]
      exact .lessEqual hv hv' hxy
    · rw [if_neg (by simpa using hxy)]
      exact (Outcome.Admits.less hv' hv (Int.not_le.1 hxy)).swap
  | gt x y =>
    cases hs
    by_cases hxy : y < x
    · rw [if_pos (decide_eq_true hxy)]
      exact (Outcome.Admits.less hv' hv hxy).swap
    · rw [if_neg (by simpa using hxy)]
      exact .lessEqual hv hv' (Int.not_lt.1 hxy)
  | ge x y =>
    cases hs
    by_cases hxy : y ≤ x
    · rw [if_pos (decide_eq_true hxy)]
      exact (Outcome.Admits.lessEqual hv' hv hxy).swap
    · rw [if_neg (by simpa using hxy)]
      exact .less hv hv' (Int.not_le.1 hxy)

/-! ### Frames and stores -/

/-- Every slot that the frame tracks holds a value that may stand there. -/
def Frame.Covers (f : Frame) (σ : Store Obj) : Prop := ∀ n r, f.read n = .ok (some r) → (σ n).Within r

theorem Store.set_same (σ : Store Obj) (n : Slot) : σ.set n (σ n) = σ := by
  funext m
  unfold Store.set
  split
  · next h => rw [h]
  · rfl

namespace Frame.Covers

variable {f g : Frame} {σ : Store Obj}

theorem mono (h : f.Covers σ) (hle : f ≤ g) : g.Covers σ := by
  intro n r hr
  obtain ⟨hn, hcont⟩ := Frame.read_eq_ok.1 hr
  obtain ⟨s, hs, hsr⟩ := hle.2 n.toNat r hcont
  have hread : f.read n = .ok (some s) := Frame.read_eq_ok.2 ⟨⟨hn.1, hle.1 ▸ hn.2⟩, hs⟩
  exact (h n s hread).mono hsr

/-- Writing a slot of the frame and the same slot of the store. -/
theorem set {n : Slot} {o : Option Interval} {v : Datum Obj} (h : f.Covers σ) (hg : f.set n o = .ok g)
    (hv : ∀ r, o = some r → v.Within r) : g.Covers (σ.set n v) := by
  intro m r hr
  by_cases hmn : m = n
  · subst hmn
    rw [Frame.read_set_self hg] at hr
    cases hr
    rw [Store.set_self]
    exact hv r rfl
  · obtain ⟨-, hsize, -⟩ := Frame.set_eq_ok hg
    obtain ⟨hm, -⟩ := Frame.read_eq_ok.1 hr
    have hread : f.read m = .ok (f.contents m.toNat) := Frame.read_eq_ok.2 ⟨⟨hm.1, hsize ▸ hm.2⟩, rfl⟩
    have hsame := (Frame.read_set_ne (Ne.symm hmn) hg).trans hread
    rw [hr] at hsame
    rw [← Except.ok.inj hsame] at hread
    rw [Store.set_ne σ v hmn]
    exact h m r hread

/-- Writing a slot of the frame whose value is known to fit. -/
theorem write {n : Slot} {r : Interval} (h : f.Covers σ) (hg : f.write n r = .ok g) (hr : (σ n).Within r) :
    g.Covers σ := by
  have hset : g.Covers (σ.set n (σ n)) := h.set hg fun s hs => by cases hs; exact hr
  rwa [Store.set_same] at hset

theorem branch {a b : Slot} {l k : Interval} {x : Option Frame} (h : f.Covers σ) (hl : (σ a).Within l)
    (hk : (σ b).Within k) (hx : f.branch a b (some (l, k)) = .ok x) : ∃ g, x = some g ∧ g.Covers σ := by
  replace hx : f.refine a b (l, k) = .ok x := hx
  unfold Frame.refine at hx
  by_cases hab : a = b
  · subst hab
    obtain ⟨m, hm, hvm⟩ := hl.inter? hk
    rw [if_pos rfl] at hx
    dsimp only at hx
    rw [hm] at hx
    obtain ⟨g, hg, rfl⟩ := map_eq_ok.1 hx
    exact ⟨g, rfl, h.write hg hvm⟩
  · rw [if_neg hab] at hx
    obtain ⟨f', hf', hx⟩ := bind_eq_ok.1 hx
    obtain ⟨g, hg, rfl⟩ := map_eq_ok.1 hx
    exact ⟨g, rfl, (h.write hf' hl).write hg hk⟩

theorem armFrame {a : Slot} {o : Option Interval} {v : Constant} {x : Option Frame} (h : f.Covers σ)
    (hr : f.read a = .ok o) (hv : σ a = .const v) (hx : Code.armFrame f a o v = .ok x) :
    ∃ g, x = some g ∧ g.Covers σ := by
  cases o with
  | none => cases hx; exact ⟨f, rfl, h⟩
  | some r =>
    cases v with
    | bool b => cases hx; exact ⟨f, rfl, h⟩
    | null => cases hx; exact ⟨f, rfl, h⟩
    | int n =>
      have hnr : n ∈ r := (hv ▸ h a r hr : (Datum.const (.int n) : Datum Obj).Within r).mem
      obtain ⟨s, hs, hns⟩ := Interval.inter?_of_mem hnr (Interval.mem_single n)
      simp only [Code.armFrame, Constant.toInt?, hs] at hx
      obtain ⟨g, hg, rfl⟩ := map_eq_ok.1 hx
      exact ⟨g, rfl, h.write hg (hv ▸ Datum.within_of_mem hns)⟩

theorem branchSends {isInteger : Slot → Bool} {a b : Slot} {op : Comparator} {l : String} {ss : List Send} {holds : Bool}
    (h : f.Covers σ) (hss : Code.branchSends f a op b l = .ok ss) (hd : op.Decides (σ a) (σ b) holds) :
    ∃ s, Sends isInteger f (.branch a op b l) s ∧ s.edge = (if holds then .jump l 0 else .next) ∧ s.frame.Covers σ := by
  rcases Code.branchSends_eq_ok hss with
    ⟨x, y, hx, hy, hno, -⟩ | ⟨r, s, o, o', taken, passed, hx, hy, hsplit, htaken, hpassed, -⟩
  · cases holds with
    | true => exact ⟨_, .takenBlindly hx hy hno, rfl, h⟩
    | false => exact ⟨_, .passedBlindly hx hy hno, rfl, h⟩
  · obtain ⟨l', k, ho, hl, hk⟩ := hd.split (h a r hx) (h b s hy) hsplit
    cases holds with
    | true =>
      subst ho
      obtain ⟨g, rfl, hg⟩ := h.branch hl hk htaken
      exact ⟨_, .taken hx hy hsplit htaken, rfl, hg⟩
    | false =>
      subst ho
      obtain ⟨g, rfl, hg⟩ := h.branch hl hk hpassed
      exact ⟨_, .passed hx hy hsplit hpassed, rfl, hg⟩

end Frame.Covers

/-- **Transfer is sound**: if a code can be followed from a frame that covers the store, it sends a frame along the edge it
takes, and that frame covers the store behind it. -/
theorem Code.Acts.sends {isInteger : Slot → Bool} {c : Code} {σ σ' : Store Obj} {e : Edge} {f : Frame} {ss : List Send}
    (hact : c.Acts σ e σ') (hss : c.transfer isInteger f = .ok ss) (hf : f.Covers σ) :
    ∃ s, Sends isInteger f c s ∧ s.edge = e ∧ s.frame.Covers σ' := by
  cases hact with
  | @const t v =>
    obtain ⟨g, hg, -⟩ := map_eq_ok.1 hss
    rw [mapError_eq_ok, Code.load_eq_set] at hg
    refine ⟨_, .const hg, rfl, hf.set hg fun r hr => ?_⟩
    cases v with
    | int n => cases hr; exact Datum.within_of_mem (Interval.mem_single n)
    | bool b => cases hr
    | null => cases hr
  | @assign t a =>
    obtain ⟨g, hg, -⟩ := map_eq_ok.1 hss
    obtain ⟨o, ho, hg⟩ := Code.copy_eq_ok.1 (mapError_eq_ok.1 hg)
    refine ⟨_, .assign ho hg, rfl, hf.set hg fun r hr => ?_⟩
    cases o with
    | some s => cases hr; exact hf a r ho
    | none =>
      simp only [Code.copied] at hr
      split at hr
      · cases hr; exact Datum.within_top _
      · cases hr
  | goto => exact ⟨_, .goto, rfl, hf⟩
  | taken hd => exact hf.branchSends (mapError_eq_ok.1 hss) hd
  | passed hd => exact hf.branchSends (mapError_eq_ok.1 hss) hd
  | @arm a arms d _ i arm harm hv _ =>
    obtain ⟨o, ho, -⟩ := bind_eq_ok.1 (mapError_eq_ok.1 hss)
    obtain ⟨x, hx⟩ := Code.exists_armFrame (Frame.read_eq_ok.1 ho).1 o arm.value
    obtain ⟨g, rfl, hg⟩ := hf.armFrame ho hv hx
    exact ⟨_, .arm ho harm hx, rfl, hg⟩
  | default _ =>
    obtain ⟨o, ho, -⟩ := bind_eq_ok.1 (mapError_eq_ok.1 hss)
    exact ⟨_, .default ho, rfl, hf⟩
  | label => exact ⟨_, .label, rfl, hf⟩
  | nop => exact ⟨_, .nop, rfl, hf⟩
  | debug => exact ⟨_, .debug, rfl, hf⟩
  | loop => exact ⟨_, .loop, rfl, hf⟩
  | bareLoop => exact ⟨_, .bareLoop, rfl, hf⟩
  | ret => exact ⟨_, .ret, rfl, hf⟩
  | @compute m t as aux _ ht v =>
    obtain ⟨hm, g, hg, -⟩ := Code.transfer_compute_eq_ok hss
    obtain ⟨o, ho, hg⟩ := (Code.forget_eq_ok ht).1 hg
    refine ⟨_, .compute hm ht ho hg, rfl, hf.set hg fun r hr => ?_⟩
    have hr : r = .top := by
      unfold Code.forgotten at hr
      split at hr
      · exact (Option.some.inj hr).symm
      · obtain ⟨_, -, hr⟩ := Option.map_eq_some_iff.1 hr
        exact hr.symm
    exact hr ▸ Datum.within_top v
  | discard => exact ⟨_, .discard (Code.transfer_compute_eq_ok hss).1, rfl, hf⟩

/-! ### Blocks -/

section Block

variable {unit : String} {vars : List Variable} {maxJoins : Int} {b : Option Block} {init : Frame} {w : Walk}
  {σ σ' : Store Obj} (h : (Task.ofBlock unit vars maxJoins b).run init = .ok w)
include h

/-- A covered store is covered behind each step. -/
theorem Walk.covers_step {c c' : Config Obj} (hstep : Step (.ofBlock b) c c')
    (hc : ∃ f, w.frameMap (.ofBlock unit vars maxJoins b) c.place = some f ∧ f.Covers c.store) :
    ∃ f, w.frameMap (.ofBlock unit vars maxJoins b) c'.place = some f ∧ f.Covers c'.store := by
  obtain ⟨hcode, hact, htarget⟩ := hstep
  obtain ⟨f, hf, hcov⟩ := hc
  obtain ⟨ss, hss, hall⟩ := Walk.settled_of_run h hcode hf
  obtain ⟨s, hs, rfl, hscov⟩ := hact.sends hss hcov
  obtain ⟨g, hg, hle⟩ := FrameBelow.some_left.1 ((hall s ((mem_transfer hss s).2 hs)).1 _ htarget)
  exact ⟨g, hg, hscov.mono hle⟩

/-- **The frames of a walk cover every run** from a store that the first frame covers. -/
theorem Walk.covers_run {a : Address} {c : Config Obj} (hinit : init.Covers σ) (ha : Flow.entry? (.ofBlock b) = some a)
    (hrun : ReflTransGen (Step (.ofBlock b)) ⟨a, σ⟩ c) :
    ∃ f, w.frameMap (.ofBlock unit vars maxJoins b) c.place = some f ∧ f.Covers c.store := by
  induction hrun with
  | refl =>
    obtain ⟨f, hf, hle⟩ := FrameBelow.some_left.1 (Walk.entry_of_run h ha)
    exact ⟨f, hf, hinit.mono hle⟩
  | tail _ hstep ih => exact Walk.covers_step h hstep ih

theorem Walk.covers_exit (hinit : init.Covers σ) (hret : Returns b σ σ') : ∃ g, w.exit = some g ∧ g.Covers σ' := by
  obtain ⟨a, a', as, ha, hrun, hcode⟩ := hret
  obtain ⟨f, hf, hcov⟩ := Walk.covers_run h hinit ha hrun
  obtain ⟨ss, hss, hall⟩ := Walk.settled_of_run h hcode hf
  obtain ⟨g, hg, hle⟩ := FrameBelow.some_left.1 ((hall _ ((mem_transfer hss _).2 .ret)).2 rfl)
  exact ⟨g, hg, hcov.mono hle⟩

end Block

/-! ### Declarations -/

/-- The frames of a result, by place. -/
def AnalysisResult.frameMap (r : AnalysisResult) : FrameMap := r.flow.frameMap r.frames

theorem FunctionDecl.assume_covers {f : FunctionDecl} {maxJoins : Int} {frame : Frame} {bs : List (Option Block)}
    {o : Option Frame} {σ σ' : Store Obj} (h : f.assume maxJoins frame bs = .ok o) (hframe : frame.Covers σ)
    (hpass : Passes bs σ σ') : ∃ g, o = some g ∧ g.Covers σ' := by
  induction hpass generalizing frame with
  | nil => cases h; exact ⟨frame, rfl, hframe⟩
  | cons hret _ ih =>
    obtain ⟨w, hw, h⟩ := bind_eq_ok.1 h
    obtain ⟨left, hleft, hcov⟩ := Walk.covers_exit hw hframe hret
    rw [hleft] at h
    exact ih h hcov

theorem FunctionDecl.initialFrame_covers {f : FunctionDecl} {σ : Store Obj} (h : f.Admits σ) :
    f.initialFrame.Covers σ := by
  intro n r hr
  obtain ⟨⟨hn, -⟩, hcont⟩ := Frame.read_eq_ok.1 hr
  have hslot : (f.params.map (·.type.range?) ++ f.locals.map fun _ => none)[n.toNat]? = some (some r) :=
    Option.join_eq_some_iff.1 hcont
  rw [List.getElem?_append] at hslot
  split at hslot
  · obtain ⟨v, hv, hrange⟩ := Option.map_eq_some_iff.1 (List.getElem?_map ▸ hslot)
    have hin := h n.toNat v r hv hrange
    rw [Int.toNat_of_nonneg hn] at hin
    exact .inl hin
  · -- no local is tracked before the first code
    obtain ⟨_, -, hnone⟩ := Option.map_eq_some_iff.1 (List.getElem?_map ▸ hslot)
    cases hnone

theorem TypeDecl.initialFrame_covers {t : TypeDecl} {σ : Store Obj} (h : t.Admits σ) : t.initialFrame.Covers σ := by
  intro n r hr
  obtain ⟨⟨hn, -⟩, hcont⟩ := Frame.read_eq_ok.1 hr
  have hslot : (t.type.range? :: t.locals.map fun _ => none)[n.toNat]? = some (some r) :=
    Option.join_eq_some_iff.1 hcont
  cases hi : n.toNat with
  | zero =>
    rw [hi] at hslot
    have hzero : n = 0 := by
      rw [← Int.toNat_of_nonneg hn, hi]
      rfl
    exact .inl (hzero ▸ h r (Option.some.inj hslot))
  | succ i =>
    rw [hi, List.getElem?_cons_succ, List.getElem?_map] at hslot
    obtain ⟨_, -, hnone⟩ := Option.map_eq_some_iff.1 hslot
    cases hnone

theorem Decl.Reaches.covers {d : Decl} {maxJoins : Int} {res : AnalysisResult} {c : Config Obj} (hc : d.Reaches c)
    (h : d.analyze maxJoins = .ok res) : ∃ f, res.frameMap c.place = some f ∧ f.Covers c.store := by
  cases hc with
  | function hadm hpass ha hrun =>
    obtain ⟨o, ho, h⟩ := bind_eq_ok.1 h
    obtain ⟨frame, rfl, hframe⟩ := FunctionDecl.assume_covers ho (FunctionDecl.initialFrame_covers hadm) hpass
    obtain ⟨w, hw, h⟩ := bind_eq_ok.1 h
    cases h
    exact Walk.covers_run hw hframe ha hrun
  | type hadm ha hrun =>
    obtain ⟨w, hw, h⟩ := bind_eq_ok.1 h
    cases h
    exact Walk.covers_run hw (TypeDecl.initialFrame_covers hadm) ha hrun

/-- **The analysis is sound.**  If a declaration has a result, every place that a run of it reaches has a frame, and an
integer in a slot that the frame tracks is one of the slot's interval.  What is no integer can be there only if the
interval is that of all integers. -/
theorem analysis_covers_runs {d : Decl} {maxJoins : Int} {res : AnalysisResult} (h : d.analyze maxJoins = .ok res)
    {c : Config Obj} (hc : d.Reaches c) :
    ∃ f, res.frameMap c.place = some f ∧ ∀ n r, f.read n = .ok (some r) →
      (∀ x : Int, c.store n = .const (.int x) → x ∈ r) ∧ ((∀ x : Int, c.store n ≠ .const (.int x)) → r = .top) := by
  obtain ⟨f, hf, hcov⟩ := hc.covers h
  refine ⟨f, hf, fun n r hr => ⟨fun x hx => ?_, fun hother => ?_⟩⟩
  · exact (hx ▸ hcov n r hr : (Datum.const (.int x) : Datum Obj).Within r).mem
  · rcases hcov n r hr with ⟨x, hx, -⟩ | htop
    · exact absurd hx (hother x)
    · exact htop

/-- A function of a byte that has to be below ten. -/
def belowTen : FunctionDecl where
  name := "belowTen"
  params := [⟨"x", .nominal "u8"⟩]
  locals := [⟨"bound", .int⟩]
  preconditions := [some [.const 1 (.int 10), .branch 0 .lt 1 "ok", .fail, .label "ok", .ret []]]
  code := some backEdge

/-- What the precondition of `belowTen` leaves. -/
def belowTenFrame : Frame := ⟨[some ⟨.fin 0, .fin 9, by decide⟩, some (.single 10)]⟩

theorem analyze_belowTen : ∃ res, (Decl.function belowTen).analyze 0 = .ok res := by
  obtain ⟨v, hv, hvend, hexit⟩ : ∃ v : Walk,
      ((Walk.start 5 belowTen.initialFrame).runFor (belowTen.task 0 (belowTen.preconditions.head (by decide))) 5).toOption
        = some v ∧ (Flow.ofBlock (belowTen.preconditions.head (by decide))).points[v.pos]? = none ∧
      v.exit = some belowTenFrame := ⟨_, rfl, rfl, by decide⟩
  obtain ⟨w, hw, hwend⟩ : ∃ w : Walk,
      ((Walk.start 7 belowTenFrame).runFor (belowTen.task 0 belowTen.code) 7).toOption = some w ∧
      (Flow.ofBlock belowTen.code).points[w.pos]? = none := ⟨_, rfl, rfl⟩
  have hpre : belowTen.assume 0 belowTen.initialFrame belowTen.preconditions = .ok (some belowTenFrame) := by
    refine bind_eq_ok.2 ⟨v, Task.run_eq_ok 5 hv hvend, ?_⟩
    rw [hexit]
    rfl
  exact ⟨_, bind_eq_ok.2 ⟨_, hpre, bind_eq_ok.2 ⟨w, Task.run_eq_ok 7 hw hwend, rfl⟩⟩⟩

/-- Every slot holds the same integer. -/
def Store.replicate (x : Int) : Store Obj := fun _ => .const (.int x)

/-- A run of `belowTen` from 7, once around the back edge. -/
theorem belowTen_reaches : (Decl.function belowTen).Reaches (⟨⟨[], 6⟩,
    (((Store.replicate 7).set 1 (.const (.int 10))).set 1 (.const (.int 3))).set 0 (.const (.int 1))⟩ : Config Obj) := by
  have hadm : belowTen.Admits (Store.replicate 7 : Store Obj) := by
    intro i v r hv hr
    refine ⟨7, rfl, ?_⟩
    cases i with
    | zero => cases hv; cases hr; decide
    | succ i => cases hv
  have hpass : Passes belowTen.preconditions (Store.replicate 7 : Store Obj)
      ((Store.replicate 7).set 1 (.const (.int 10))) := by
    refine .cons ⟨⟨[], 0⟩, ⟨[], 4⟩, [], rfl, ?_, rfl⟩ (.nil _)
    exact .head (.intro rfl .const rfl) <| .head (.intro rfl (.taken (.lt 7 10)) rfl) <|
      .head (.intro rfl .label rfl) .refl
  refine .function hadm hpass rfl ?_
  exact .head (.intro rfl .const rfl) <| .head (.intro rfl .label rfl) <|
    .head (.intro rfl (.passed (.lt 7 3)) rfl) <| .head (.intro rfl .const rfl) <| .head (.intro rfl .goto rfl) <|
    .head (.intro rfl .label rfl) <| .head (.intro rfl (.taken (.lt 1 3)) rfl) <| .head (.intro rfl .label rfl) .refl

theorem analysis_covers_runs_belowTen :
    ∃ res, (Decl.function belowTen).analyze 0 = .ok res ∧ ∃ c : Config Empty, (Decl.function belowTen).Reaches c ∧
      c.store 0 = .const (.int 1) ∧ ∃ f, res.frameMap c.place = some f ∧ ∀ n r, f.read n = .ok (some r) →
        (∀ x : Int, c.store n = .const (.int x) → x ∈ r) ∧
        ((∀ x : Int, c.store n ≠ .const (.int x)) → r = .top) := by
  obtain ⟨res, hres⟩ := analyze_belowTen
  exact ⟨res, hres, _, belowTen_reaches, rfl, analysis_covers_runs hres belowTen_reaches⟩

end Narrowing
