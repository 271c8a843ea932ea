import Narrowing.Check
import Narrowing.Emit.Basic
import Narrowing.Proofs.Soundness

/-!
# Is the declared kind wide enough?

A variable is declared with a kind that holds the union of its intervals over all points.  So the kind holds each
integer that the variable brings to a point where it is tracked, and as long as the variable is not written again it
does not matter whether later points track it (`declared_kind_holds_seen_values`).  An integer that no point sees in
time is not held: where two paths meet and only one of them has set the variable, the frame forgets it, and unless
there was a point before, the value went by unseen (`declared_kind_misses_unseen_value`).
-/

namespace Narrowing

open Relation

/-! ### Kinds for intervals -/

theorem Interval.isFinite_of_le {a b : Interval} (h : a ≤ b) (hb : b.isFinite = true) : a.isFinite = true := by
  obtain ⟨al, ah, ha⟩ := a
  obtain ⟨bl, bh, hbb⟩ := b
  rw [Interval.le_def] at h
  obtain ⟨hlow, hhigh⟩ := h
  cases bl <;> cases bh <;> simp_all [Interval.isFinite, Bound.isInfinite]
  cases al <;> cases ah <;> simp_all

namespace Kind

/-- Both names of the integers of a kind mean the same. -/
theorem range?_nominal (k : Kind) : (Ty.nominal k.nominal).range? = some k.range := by
  obtain ⟨w, s⟩ := k
  cases w <;> cases s <;> decide

theorem range?_of_ofNominal? {name : String} {k : Kind} (h : ofNominal? name = some k) :
    (Ty.nominal name).range? = some k.range := by
  have hname : k.nominal = name := by simpa using List.find?_some h
  rw [← hname]
  exact range?_nominal k

theorem name_injective {k k' : Kind} (h : k.name = k'.name) : k = k' := by
  obtain ⟨w, s⟩ := k
  obtain ⟨w', s'⟩ := k'
  cases w <;> cases s <;> cases w' <;> cases s' <;> first | rfl | exact absurd h (by decide)

end Kind

namespace Selector

theorem mem_of_select {s : Selector} {r : Interval} {k : Kind} {x : Int} (h : s.select r = some k)
    (hr : r.isFinite = true) (hx : x ∈ r) : x ∈ k.range := by
  unfold select at h
  cases hfind : s.table.find? (·.range.contains r) with
  | some k' =>
    rw [hfind] at h
    cases h
    have hle : k.range.contains r = true := by simpa using List.find?_some hfind
    exact Interval.mem_of_le hle hx
  | none =>
    have hinf : (r.low.isInfinite || r.high.isInfinite) = false := by
      unfold Interval.isFinite at hr
      simpa using hr
    rw [hfind] at h
    simp [hinf] at h

/-- The kind for a variable holds the values of its interval that its type admits. -/
theorem mem_of_selectFor {s : Selector} {r : Interval} {t : Ty} {k : Kind} {x : Int} (h : s.selectFor r t = some k)
    (hr : r.isFinite = true) (hx : x ∈ r) (ht : ∀ q, t.range? = some q → x ∈ q) : x ∈ k.range := by
  have hclamp : (clamp r t).isFinite = true ∧ x ∈ clamp r t := by
    unfold clamp
    split
    · next name =>
      cases hk : Kind.ofNominal? name with
      | none => exact ⟨hr, hx⟩
      | some k₀ =>
        obtain ⟨m, hm, hxm⟩ := Interval.inter?_of_mem hx (ht k₀.range (Kind.range?_of_ofNominal? hk))
        dsimp only
        rw [hm]
        exact ⟨Interval.isFinite_of_le (Interval.inter?_le_left hm) hr, hxm⟩
    · exact ⟨hr, hx⟩
  exact mem_of_select h hclamp.1 hclamp.2

end Selector

/-! ### Ranges of variables -/

theorem le_foldl_union {q i : Interval} {is : List Interval} (h : q ≤ i ∨ q ∈ is) : q ≤ is.foldl Interval.union i := by
  induction is generalizing i with
  | nil =>
    rcases h with h | h
    · exact h
    · cases h
  | cons j is ih =>
    apply ih
    rcases h with h | h
    · exact .inl (Interval.le_trans h (Interval.le_union_left i j))
    · rcases List.mem_cons.1 h with rfl | h
      · exact .inl (Interval.le_union_right i q)
      · exact .inr h

/-- The range of a variable holds its interval at each point. -/
theorem AnalysisResult.le_range? {res : AnalysisResult} {a : Address} {n : Nat} {f : Frame} {q r : Interval}
    (hf : res.frameMap a = some f) (hq : f.read n = .ok (some q)) (hr : res.range? n = some r) : q ≤ r := by
  obtain ⟨i, -, hi⟩ := Option.bind_eq_some_iff.1 hf
  have hframe : some f ∈ res.frames := List.mem_of_getElem? (Option.join_eq_some_iff.1 hi)
  have hslot : f.contents n = some q := (Frame.read_eq_ok.1 hq).2
  have hmem : q ∈ res.frames.filterMap fun frame => (frame.bind (·.slots[n]?)).join :=
    List.mem_filterMap.2 ⟨some f, hframe, hslot⟩
  unfold AnalysisResult.range? at hr
  generalize (res.frames.filterMap fun frame => (frame.bind (·.slots[n]?)).join) = intervals at hr hmem
  cases intervals with
  | nil => cases hr
  | cons i is =>
    cases hr
    rcases List.mem_cons.1 hmem with rfl | hmem
    · exact le_foldl_union (.inl (Interval.le_refl q))
    · exact le_foldl_union (.inr hmem)

/-- A variable with a range is declared with the kind selected for it. -/
theorem Emitter.variableType_eq_ok {f : FunctionDecl} {res : AnalysisResult} {s : Selector} {n : Nat} {v : Variable}
    {r : Interval} {k : Kind} (hv : f.lookup? n = some v) (hint : v.type.isInteger = true) (hr : res.range? n = some r) :
    (Emitter.variableType ⟨f, some res, s⟩ n).run none = .ok (k.name, none) ↔ s.selectFor r v.type = some k := by
  have hrange : Emitter.range? ⟨f, some res, s⟩ n v = some r := by
    unfold Emitter.range?
    rw [if_pos hint]
    exact hr
  have hat : Emitter.variableAt ⟨f, some res, s⟩ n = pure v := by
    unfold Emitter.variableAt
    dsimp only
    rw [hv]
  unfold Emitter.variableType
  rw [hat, pure_bind, hrange]
  dsimp only
  cases s.selectFor r v.type with
  | none =>
    constructor
    · intro h
      -- a construct without a counterpart is remembered
      cases congrArg Prod.snd (Except.ok.inj h)
    · intro h
      cases h
  | some k' =>
    constructor
    · intro h
      rw [Kind.name_injective (congrArg Prod.fst (Except.ok.inj h))]
    · intro h
      cases h
      rfl

/-! ### Datums between two writes -/

variable {Obj : Type}

/-- A step whose code does not write the slot. -/
def StepSparing (g : Flow) (n : Slot) (c c' : Config Obj) : Prop :=
  Step g c c' ∧ ∃ code slots, g.codeAt? c.place = some code ∧ code.slots = .ok slots ∧ n ∉ slots.defs

theorem Code.Acts.spares {c : Code} {σ σ' : Store Obj} {e : Edge} {n : Slot} {slots : Code.Slots} (h : c.Acts σ e σ')
    (hn : n ≠ noSlot) (hslots : c.slots = .ok slots) (hdefs : n ∉ slots.defs) : σ' n = σ n := by
  cases h with
  | const =>
    cases hslots
    exact Store.set_ne σ _ fun hnt => hdefs (mem_present_iff.2 ⟨List.mem_singleton.2 hnt, hn⟩)
  | assign =>
    cases hslots
    exact Store.set_ne σ _ fun hnt => hdefs (mem_present_iff.2 ⟨List.mem_singleton.2 hnt, hn⟩)
  | compute _ v =>
    cases hslots
    exact Store.set_ne σ v fun hnt => hdefs (mem_present_iff.2 ⟨List.mem_singleton.2 hnt, hn⟩)
  | _ => rfl

theorem store_eq_of_sparing {g : Flow} {n : Slot} {c c' : Config Obj} (hn : n ≠ noSlot)
    (h : ReflTransGen (StepSparing g n) c c') : c'.store n = c.store n := by
  induction h with
  | refl => rfl
  | tail _ hstep ih =>
    obtain ⟨⟨hcode, hact, -⟩, code, slots, hcode', hslots, hdefs⟩ := hstep
    rw [hcode] at hcode'
    cases hcode'
    exact (hact.spares hn hslots hdefs).trans ih

/-- Integers in variables of word types are words of these types. -/
def FunctionDecl.Respects (f : FunctionDecl) (σ : Store Obj) : Prop :=
  ∀ n v q (x : Int), f.lookup? n = some v → v.type.range? = some q → σ n = .const (.int x) → x ∈ q

/-! ### Seen and unseen values -/

/-- A function that returns 300 unless its parameter is 0, and then 1.  Both go through the variable `x`, which is set
on one of two paths that meet; the given codes follow where it is set. -/
def guarded (seen : List Code) : FunctionDecl where
  name := "f"
  params := [⟨"a", .int⟩]
  returns := [.int]
  locals := [⟨"x", .int⟩, ⟨"zero", .int⟩]
  code := some ([.const 2 (.int 0), .branch 0 .eq 2 "skip", .const 1 (.int 300)] ++ seen ++
    [.label "skip", .branch 0 .eq 2 "end", .ret [1], .label "end", .const 1 (.int 1), .ret [1]])

theorem guarded_admits (seen : List Code) (x : Int) : (guarded seen).Admits (Store.replicate x : Store Obj) := by
  intro i v r hv hr
  refine ⟨x, rfl, ?_⟩
  cases i with
  | zero => cases hv; cases hr; exact Interval.mem_top x
  | succ i => cases hv

theorem guarded_respects (seen : List Code) (σ : Store Obj) : (guarded seen).Respects σ := by
  intro n v q x hv hq _
  have hmem : v ∈ (guarded seen).vars := by
    unfold FunctionDecl.lookup? variableAt? at hv
    split at hv
    · cases hv
    · exact List.mem_of_getElem? hv
  have hint : v.type = .int := by
    simp only [guarded, FunctionDecl.vars, List.cons_append, List.nil_append, List.mem_cons, List.not_mem_nil,
      or_false] at hmem
    rcases hmem with rfl | rfl | rfl <;> rfl
  rw [hint] at hq
  cases hq
  exact Interval.mem_top x

theorem Selector.table_default : Selector.default.table = Kind.all := by
  unfold Selector.default Selector.sortByWidth
  exact List.mergeSort_of_pairwise (by decide)

/-- The store in which `guarded` has set `zero` and `x`. -/
def guardedStore : Store Obj := ((Store.replicate 5).set 2 (.const (.int 0))).set 1 (.const (.int 300))

/-- **The declared kind holds what was seen.**  Let an integer variable have a finite range and be declared with the kind
`k`, and let a run come to a place where it is tracked and go on without writing it.  Then the integer it holds is one of
`k`. -/
theorem declared_kind_holds_seen_values {f : FunctionDecl} {maxJoins : Int} {res : AnalysisResult} {s : Selector}
    {n : Nat} {v : Variable} {r q : Interval} {k : Kind} {fr : Frame} {c c' : Config Obj} {x : Int}
    (h : f.analyze maxJoins = .ok res) (hv : f.lookup? n = some v) (hint : v.type.isInteger = true)
    (hr : res.range? n = some r) (hfin : r.isFinite = true)
    (hk : (Emitter.variableType ⟨f, some res, s⟩ n).run none = .ok (k.name, none))
    (hc : (Decl.function f).Reaches c) (hfr : res.frameMap c.place = some fr) (hseen : fr.read n = .ok (some q))
    (hc' : ReflTransGen (StepSparing (.ofBlock f.code) n) c c') (hwords : f.Respects c'.store)
    (hx : c'.store n = .const (.int x)) : x ∈ k.range := by
  have hn : (n : Int) ≠ noSlot := by
    show (n : Int) ≠ -1
    omega
  obtain ⟨fr', hfr', hcov⟩ := hc.covers (d := .function f) h
  rw [hfr] at hfr'
  cases hfr'
  have hxc : c.store n = .const (.int x) := (store_eq_of_sparing hn hc').symm.trans hx
  have hxq : x ∈ q := (hxc ▸ hcov n q hseen : (Datum.const (.int x) : Datum Obj).Within q).mem
  have hxr : x ∈ r := Interval.mem_of_le (AnalysisResult.le_range? hfr hseen hr) hxq
  exact Selector.mem_of_selectFor ((Emitter.variableType_eq_ok hv hint hr).1 hk) hfin hxr
    fun t ht => hwords n v t x hv ht hx

theorem declared_kind_holds_seen_values_guarded :
    ∃ res, (guarded [.nop]).analyze 0 = .ok res ∧
      (Emitter.variableType ⟨guarded [.nop], some res, .default⟩ 1).run none = .ok ((⟨.w16, false⟩ : Kind).name, none) ∧
      ∃ c c' : Config Empty, (Decl.function (guarded [.nop])).Reaches c ∧
        ReflTransGen (StepSparing (.ofBlock (guarded [.nop]).code) 1) c c' ∧ c'.store 1 = .const (.int 300) ∧
        (300 : Int) ∈ (⟨.w16, false⟩ : Kind).range := by
  obtain ⟨w, hw, hend, hrange, hframe⟩ : ∃ w : Walk,
      ((Walk.start 10 (guarded [.nop]).initialFrame).runFor ((guarded [.nop]).task 0 (guarded [.nop]).code) 10).toOption
        = some w ∧ (Flow.ofBlock (guarded [.nop]).code).points[w.pos]? = none ∧
      (((guarded [.nop]).task 0 (guarded [.nop]).code).result w).range? 1 = some ⟨.fin 1, .fin 300, by decide⟩ ∧
      (((guarded [.nop]).task 0 (guarded [.nop]).code).result w).frameMap ⟨[], 3⟩ =
        some ⟨[some .top, some (.single 300), some (.single 0)]⟩ := ⟨_, rfl, rfl, rfl, rfl⟩
  have hselect : Selector.default.selectFor ⟨.fin 1, .fin 300, by decide⟩ .int = some ⟨.w16, false⟩ := by
    unfold Selector.selectFor Selector.select
    rw [Selector.table_default]
    decide
  have hreach : (Decl.function (guarded [.nop])).Reaches (⟨⟨[], 3⟩, guardedStore⟩ : Config Empty) := by
    refine .function (guarded_admits [.nop] 5) (.nil _) rfl ?_
    exact .head (.intro rfl .const rfl) <| .head (.intro rfl (.passed (.eq_fails nofun)) rfl) <|
      .head (.intro rfl .const rfl) .refl
  have hspare : ReflTransGen (StepSparing (.ofBlock (guarded [.nop]).code) 1) (⟨⟨[], 3⟩, guardedStore⟩ : Config Empty)
      ⟨⟨[], 6⟩, guardedStore⟩ := by
    exact .head ⟨.intro rfl .nop rfl, _, _, rfl, rfl, by decide⟩ <|
      .head ⟨.intro rfl .label rfl, _, _, rfl, rfl, by decide⟩ <|
      .head ⟨.intro rfl (.passed (.eq_fails nofun)) rfl, _, _, rfl, rfl, by decide⟩ .refl
  have hres : (guarded [.nop]).analyze 0 = .ok (((guarded [.nop]).task 0 (guarded [.nop]).code).result w) :=
    bind_eq_ok.2 ⟨_, rfl, bind_eq_ok.2 ⟨w, Task.run_eq_ok 10 hw hend, rfl⟩⟩
  have htype := (Emitter.variableType_eq_ok (f := guarded [.nop]) (v := ⟨"x", .int⟩) rfl rfl hrange).2 hselect
  refine ⟨_, hres, htype, _, _, hreach, hspare, rfl, ?_⟩
  exact declared_kind_holds_seen_values hres rfl rfl hrange rfl htype hreach hframe rfl hspare
    (guarded_respects [.nop] _) rfl

/-- A value that goes by unseen: without the code between its constant and the place where the paths meet, `x` is
declared too narrow for the 300 that `guarded` returns. -/
theorem declared_kind_misses_unseen_value :
    File.check ⟨"m", [.function (guarded [])]⟩ = .ok () ∧
    ∃ res, (guarded []).analyze 0 = .ok res ∧ res.range? 1 = some (.single 1) ∧
      (Emitter.variableType ⟨guarded [], some res, .default⟩ 1).run none = .ok ((⟨.w8, false⟩ : Kind).name, none) ∧
      ∃ c : Config Empty, (Decl.function (guarded [])).Reaches c ∧ (guarded []).Respects c.store ∧
        (Flow.ofBlock (guarded []).code).codeAt? c.place = some (.ret [1]) ∧ c.store 1 = .const (.int 300) ∧
        ¬ (300 : Int) ∈ (⟨.w8, false⟩ : Kind).range := by
  obtain ⟨w, hw, hend, hrange⟩ : ∃ w : Walk,
      ((Walk.start 9 (guarded []).initialFrame).runFor ((guarded []).task 0 (guarded []).code) 9).toOption = some w ∧
      (Flow.ofBlock (guarded []).code).points[w.pos]? = none ∧
      (((guarded []).task 0 (guarded []).code).result w).range? 1 = some (.single 1) := ⟨_, rfl, rfl, rfl⟩
  have hselect : Selector.default.selectFor (.single 1) .int = some ⟨.w8, false⟩ := by
    unfold Selector.selectFor Selector.select
    rw [Selector.table_default]
    decide
  have hreach : (Decl.function (guarded [])).Reaches (⟨⟨[], 5⟩, guardedStore⟩ : Config Empty) := by
    refine .function (guarded_admits [] 5) (.nil _) rfl ?_
    exact .head (.intro rfl .const rfl) <| .head (.intro rfl (.passed (.eq_fails nofun)) rfl) <|
      .head (.intro rfl .const rfl) <| .head (.intro rfl .label rfl) <|
      .head (.intro rfl (.passed (.eq_fails nofun)) rfl) .refl
  refine ⟨rfl, _, bind_eq_ok.2 ⟨_, rfl, bind_eq_ok.2 ⟨w, Task.run_eq_ok 9 hw hend, rfl⟩⟩, hrange, ?_, ?_⟩
  · exact (Emitter.variableType_eq_ok rfl rfl hrange).2 hselect
  · exact ⟨_, hreach, guarded_respects [] _, rfl, rfl, by decide⟩

end Narrowing
