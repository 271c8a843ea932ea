import Narrowing.Proofs.Frame

/-!
# What codes send

`Sends isInteger f c s` says in one clause for each sort of code what `Code.transfer` computes (`mem_transfer`).  Two
facts follow by cases: a send is as large as the frame it comes from (`Sends.size_eq`), and a frame that knows more
sends frames that know more along the same edges (`Sends.mono`).
-/

namespace Narrowing

theorem Code.mem_present_iff {n : Slot} {ns : List Slot} : n ∈ slots.present ns ↔ n ∈ ns ∧ n ≠ noSlot := by
  simp [slots.present]

/-! ### Branches -/

namespace Frame

theorem refine_eq_ok {f g : Frame} {left right : Slot} {a b : Interval} :
    f.refine left right (a, b) = .ok (some g) ↔
      (left = right ∧ ∃ r, a.inter? b = some r ∧ f.write left r = .ok g) ∨
        (left ≠ right ∧ ∃ h, f.write left a = .ok h ∧ h.write right b = .ok g) := by
  unfold refine
  by_cases hlr : left = right
  · rw [if_pos hlr]
    dsimp only
    cases a.inter? b with
    | none => simp [hlr]
    | some r => simp [hlr, Functor.map, map_eq_ok]
  · rw [if_neg hlr]
    simp [hlr, Functor.map, map_eq_ok, bind_eq_ok]

theorem exists_branch {f : Frame} {left right : Slot} (hl : f.Has left) (hr : f.Has right) (o : Outcome) :
    ∃ x, f.branch left right o = .ok x := by
  cases o with
  | none => exact ⟨none, rfl⟩
  | some operands =>
    obtain ⟨a, b⟩ := operands
    show ∃ x, f.refine left right (a, b) = .ok x
    unfold refine
    by_cases hlr : left = right
    · rw [if_pos hlr]
      dsimp only
      cases a.inter? b with
      | none => exact ⟨none, rfl⟩
      | some r =>
        obtain ⟨g, hg⟩ := exists_set (some r) hl
        exact ⟨some g, map_eq_ok.2 ⟨g, hg, rfl⟩⟩
    · rw [if_neg hlr]
      obtain ⟨g, hg⟩ := exists_set (some a) hl
      have hgr : g.Has right := ⟨hr.1, (set_eq_ok hg).2.1 ▸ hr.2⟩
      obtain ⟨h, hh⟩ := exists_set (some b) hgr
      exact ⟨some h, bind_eq_ok.2 ⟨g, hg, map_eq_ok.2 ⟨h, hh, rfl⟩⟩⟩

theorem refine_mono {f f' g : Frame} {left right : Slot} {a a' b b' : Interval} (hf : f ≤ f') (ha : a ≤ a')
    (hb : b ≤ b') (h : f.refine left right (a, b) = .ok (some g)) :
    ∃ g', f'.refine left right (a', b') = .ok (some g') ∧ g ≤ g' := by
  rcases refine_eq_ok.1 h with ⟨hlr, r, hr, hg⟩ | ⟨hlr, k, hk, hg⟩
  · obtain ⟨r', hr', hrr⟩ := Interval.inter?_mono ha hb hr
    obtain ⟨g', hg', hgg⟩ := set_mono hf (SlotBelow.some_some.2 hrr) hg
    exact ⟨g', refine_eq_ok.2 (.inl ⟨hlr, r', hr', hg'⟩), hgg⟩
  · obtain ⟨k', hk', hkk⟩ := set_mono hf (SlotBelow.some_some.2 ha) hk
    obtain ⟨g', hg', hgg⟩ := set_mono hkk (SlotBelow.some_some.2 hb) hg
    exact ⟨g', refine_eq_ok.2 (.inr ⟨hlr, k', hk', hg'⟩), hgg⟩

theorem branch_mono {f f' g : Frame} {left right : Slot} {o o' : Outcome} (hf : f ≤ f') (ho : o.Below o')
    (h : f.branch left right o = .ok (some g)) : ∃ g', f'.branch left right o' = .ok (some g') ∧ g ≤ g' := by
  cases o with
  | none => cases h
  | some operands =>
    obtain ⟨a, b⟩ := operands
    obtain ⟨a', b', rfl, ha, hb⟩ := ho a b rfl
    exact refine_mono hf ha hb h

/-- A branch whose outcome lies within its operands writes smaller intervals: one to a slot that is compared with
itself, and one to each operand otherwise. -/
theorem branch_writes {f g : Frame} {left right : Slot} {a b : Interval} {o : Outcome} (ho : o.Below (some (a, b)))
    (h : f.branch left right o = .ok (some g)) :
    (∃ r, r ≤ a ∧ f.write left r = .ok g) ∨
      (left ≠ right ∧ ∃ a' b' k, a' ≤ a ∧ b' ≤ b ∧ f.write left a' = .ok k ∧ k.write right b' = .ok g) := by
  cases o with
  | none => cases h
  | some operands =>
    obtain ⟨a', b'⟩ := operands
    obtain ⟨_, _, hab, ha, hb⟩ := ho a' b' rfl
    cases hab
    rcases refine_eq_ok.1 h with ⟨-, r, hr, hg⟩ | ⟨hlr, k, hk, hg⟩
    · exact .inl ⟨r, Interval.le_trans (Interval.inter?_le_left hr) ha, hg⟩
    · exact .inr ⟨hlr, a', b', k, ha, hb, hk, hg⟩

/-- A refined frame is smaller. -/
theorem branch_le {f g : Frame} {left right : Slot} {a b : Interval} {o : Outcome} (hl : f.read left = .ok (some a))
    (hr : f.read right = .ok (some b)) (ho : o.Below (some (a, b))) (h : f.branch left right o = .ok (some g)) :
    g ≤ f := by
  rcases branch_writes ho h with ⟨r, hle, hg⟩ | ⟨hlr, a', b', k, ha, hb, hk, hg⟩
  · exact set_le hl (SlotBelow.some_some.2 hle) hg
  · have hkr : k.read right = .ok (some b) := (read_set_ne hlr hk).trans hr
    exact Frame.le_trans (set_le hkr (SlotBelow.some_some.2 hb) hg) (set_le hl (SlotBelow.some_some.2 ha) hk)

theorem size_branch {f g : Frame} {left right : Slot} {o : Outcome} (h : f.branch left right o = .ok (some g)) :
    g.size = f.size := by
  cases o with
  | none => cases h
  | some operands =>
    obtain ⟨a, b⟩ := operands
    rcases refine_eq_ok.1 h with ⟨-, r, -, hg⟩ | ⟨-, k, hk, hg⟩
    · exact (set_eq_ok hg).2.1
    · exact (set_eq_ok hg).2.1.trans (set_eq_ok hk).2.1

end Frame

namespace Code

/-- A branch with an unknown operand sends the frame as it is along both edges, any other one its two refinements. -/
theorem branchSends_eq_ok {f : Frame} {a b : Slot} {op : Comparator} {l : String} {ss : List Send}
    (h : branchSends f a op b l = .ok ss) :
    (∃ x y, f.read a = .ok x ∧ f.read b = .ok y ∧ (x = none ∨ y = none) ∧ ss = [⟨.jump l 0, f⟩, ⟨.next, f⟩]) ∨
      ∃ r s holds fails taken passed, f.read a = .ok (some r) ∧ f.read b = .ok (some s) ∧
        op.split r s = .ok (holds, fails) ∧ f.branch a b holds = .ok taken ∧ f.branch a b fails = .ok passed ∧
        ss = (taken.map (Send.mk (.jump l 0))).toList ++ (passed.map (Send.mk .next)).toList := by
  obtain ⟨x, hx, h⟩ := bind_eq_ok.1 h
  obtain ⟨y, hy, h⟩ := bind_eq_ok.1 h
  cases x with
  | none => exact .inl ⟨none, y, hx, hy, .inl rfl, (Except.ok.inj h).symm⟩
  | some r =>
    cases y with
    | none => exact .inl ⟨some r, none, hx, hy, .inr rfl, (Except.ok.inj h).symm⟩
    | some s =>
      obtain ⟨⟨holds, fails⟩, hsplit, h⟩ := bind_eq_ok.1 h
      obtain ⟨taken, htaken, h⟩ := bind_eq_ok.1 h
      obtain ⟨passed, hpassed, h⟩ := bind_eq_ok.1 h
      exact .inr ⟨r, s, holds, fails, taken, passed, hx, hy, hsplit, htaken, hpassed, (Except.ok.inj h).symm⟩

/-! ### Arms, copies and other targets -/

theorem armFrame_eq_ok {f g : Frame} {operand : Slot} {contents : Option Interval} {v : Constant}
    (h : armFrame f operand contents v = .ok (some g)) :
    (∃ r n s, contents = some r ∧ v = .int n ∧ r.inter? (.single n) = some s ∧ f.write operand s = .ok g) ∨
      ((contents = none ∨ v.toInt? = none) ∧ g = f) := by
  cases contents with
  | none => exact .inr ⟨.inl rfl, (Option.some.inj (Except.ok.inj h)).symm⟩
  | some r =>
    cases v with
    | bool b => exact .inr ⟨.inr rfl, (Option.some.inj (Except.ok.inj h)).symm⟩
    | null => exact .inr ⟨.inr rfl, (Option.some.inj (Except.ok.inj h)).symm⟩
    | int n =>
      simp only [armFrame, Constant.toInt?] at h
      cases hs : r.inter? (.single n) with
      | none => rw [hs] at h; cases h
      | some s =>
        rw [hs] at h
        obtain ⟨k, hk, hkg⟩ := map_eq_ok.1 h
        cases hkg
        exact .inl ⟨r, n, s, rfl, rfl, hs, hk⟩

theorem exists_armFrame {f : Frame} {operand : Slot} (h : f.Has operand) (contents : Option Interval) (v : Constant) :
    ∃ x, armFrame f operand contents v = .ok x := by
  unfold armFrame
  split
  · split
    · exact ⟨none, rfl⟩
    · next s _ =>
      obtain ⟨g, hg⟩ := Frame.exists_set (some s) h
      exact ⟨some g, map_eq_ok.2 ⟨g, hg, rfl⟩⟩
  · exact ⟨some f, rfl⟩

theorem armFrame_mono {f f' g : Frame} {operand : Slot} {contents contents' : Option Interval} {v : Constant}
    (hf : f ≤ f') (hr : f.read operand = .ok contents) (hc : SlotBelow contents contents')
    (h : armFrame f operand contents v = .ok (some g)) :
    ∃ g', armFrame f' operand contents' v = .ok (some g') ∧ g ≤ g' := by
  rcases armFrame_eq_ok h with ⟨r, n, s, rfl, rfl, hs, hg⟩ | ⟨hno, rfl⟩
  · cases contents' with
    | none =>
      -- the greater frame does not know the operand and sends itself
      have hle : g ≤ f := Frame.set_le hr (SlotBelow.some_some.2 (Interval.inter?_le_left hs)) hg
      exact ⟨f', rfl, Frame.le_trans hle hf⟩
    | some r' =>
      obtain ⟨s', hs', hss⟩ := Interval.inter?_mono (SlotBelow.some_some.1 hc) (Interval.le_refl _) hs
      obtain ⟨g', hg', hgg⟩ := Frame.set_mono hf (SlotBelow.some_some.2 hss) hg
      refine ⟨g', ?_, hgg⟩
      simp only [armFrame, Constant.toInt?, hs', Frame.write, hg', Functor.map, Except.map]
  · refine ⟨f', ?_, hf⟩
    unfold armFrame
    split
    · next r' n hn =>
      obtain ⟨r, rfl, -⟩ := hc r' rfl
      rcases hno with hno | hno
      · cases hno
      · rw [hno] at hn; cases hn
    · rfl

theorem size_armFrame {f g : Frame} {operand : Slot} {contents : Option Interval} {v : Constant}
    (h : armFrame f operand contents v = .ok (some g)) : g.size = f.size := by
  rcases armFrame_eq_ok h with ⟨r, n, s, -, -, -, hg⟩ | ⟨-, rfl⟩
  · exact (Frame.set_eq_ok hg).2.1
  · rfl

/-- Each arm whose value is possible gets its frame, and the default gets the frame as it is. -/
theorem mem_armSends {f : Frame} {operand : Slot} {contents : Option Interval} {default : String} {number : Nat}
    {arms : List Arm} {ss : List Send} (h : armSends f operand contents default number arms = .ok ss) (s : Send) :
    s ∈ ss ↔ (∃ i arm g, arms[i]? = some arm ∧ armFrame f operand contents arm.value = .ok (some g) ∧
        s = ⟨.jump arm.target (number + i), g⟩) ∨ s = ⟨.jump default (number + arms.length), f⟩ := by
  induction arms generalizing number ss with
  | nil => cases h; simp
  | cons arm arms ih =>
    obtain ⟨first, hfirst, h⟩ := bind_eq_ok.1 h
    obtain ⟨more, hmore, h⟩ := bind_eq_ok.1 h
    cases h
    rw [List.mem_append, ih hmore]
    constructor
    · rintro (hs | ⟨i, arm', g, harm, hg, rfl⟩ | rfl)
      · cases first with
        | none => simp at hs
        | some g =>
          simp only [Option.map_some, Option.toList_some, List.mem_singleton] at hs
          exact .inl ⟨0, arm, g, rfl, hfirst, hs⟩
      · refine .inl ⟨i + 1, arm', g, harm, hg, ?_⟩
        rw [show number + 1 + i = number + (i + 1) by omega]
      · refine .inr ?_
        rw [List.length_cons, show number + 1 + arms.length = number + (arms.length + 1) by omega]
    · rintro (⟨i, arm', g, harm, hg, rfl⟩ | rfl)
      · cases i with
        | zero =>
          cases harm
          rw [hfirst] at hg
          cases hg
          exact .inl (by simp)
        | succ i =>
          refine .inr (.inl ⟨i, arm', g, harm, hg, ?_⟩)
          rw [show number + 1 + i = number + (i + 1) by omega]
      · refine .inr (.inr ?_)
        rw [List.length_cons, show number + 1 + arms.length = number + (arms.length + 1) by omega]

theorem exists_armSends {f : Frame} {operand : Slot} (h : f.Has operand) (contents : Option Interval)
    (default : String) (number : Nat) (arms : List Arm) :
    ∃ ss, armSends f operand contents default number arms = .ok ss := by
  induction arms generalizing number with
  | nil => exact ⟨_, rfl⟩
  | cons arm arms ih =>
    obtain ⟨x, hx⟩ := exists_armFrame h contents arm.value
    obtain ⟨ss, hss⟩ := ih (number + 1)
    exact ⟨_, bind_eq_ok.2 ⟨x, hx, bind_eq_ok.2 ⟨ss, hss, rfl⟩⟩⟩

/-- What the target of a copy holds behind it. -/
def copied (isInteger : Slot → Bool) (target operand : Slot) : Option Interval → Option Interval
  | some r => some r
  | none => if isInteger operand && isInteger target then some .top else none

/-- What the target of a value that is not modelled holds behind it. -/
def forgotten (isInteger : Slot → Bool) (target : Slot) (o : Option Interval) : Option Interval :=
  if isInteger target then some .top else o.map fun _ => .top

theorem copied_mono {isInteger : Slot → Bool} {target operand : Slot} {o o' : Option Interval} (h : SlotBelow o o') :
    SlotBelow (copied isInteger target operand o) (copied isInteger target operand o') := by
  cases o' with
  | some r' =>
    obtain ⟨r, rfl, hle⟩ := h r' rfl
    exact SlotBelow.some_some.2 hle
  | none =>
    cases o with
    | none => exact SlotBelow.refl _
    | some r =>
      show SlotBelow (some r) (if _ then _ else _)
      split
      · exact SlotBelow.some_top r
      · exact SlotBelow.none _

theorem forgotten_mono {isInteger : Slot → Bool} {target : Slot} {o o' : Option Interval} (h : SlotBelow o o') :
    SlotBelow (forgotten isInteger target o) (forgotten isInteger target o') := by
  unfold forgotten
  split
  · exact SlotBelow.refl _
  · cases o' with
    | none => exact SlotBelow.none _
    | some r' =>
      obtain ⟨r, rfl, -⟩ := h r' rfl
      exact SlotBelow.refl _

theorem load_eq_set (f : Frame) (target : Slot) (v : Constant) :
    load f target v = f.set target (v.toInt?.map .single) := by
  cases v <;> rfl

theorem copy_eq_ok {isInteger : Slot → Bool} {f g : Frame} {target operand : Slot} :
    copy isInteger f target operand = .ok g ↔
      ∃ o, f.read operand = .ok o ∧ f.set target (copied isInteger target operand o) = .ok g := by
  have hnone : ∀ b : Bool, (if b = true then f.write target .top else f.undefine target) =
      f.set target (if b = true then some .top else none) := by
    intro b
    cases b <;> rfl
  unfold copy
  rw [bind_eq_ok]
  constructor
  · rintro ⟨o, ho, h⟩
    refine ⟨o, ho, ?_⟩
    cases o with
    | some r => exact h
    | none => exact (hnone _).symm.trans h
  · rintro ⟨o, ho, h⟩
    refine ⟨o, ho, ?_⟩
    cases o with
    | some r => exact h
    | none => exact (hnone _).trans h

theorem forget_eq_ok {isInteger : Slot → Bool} {f g : Frame} {target : Slot} (ht : target ≠ noSlot) :
    forget isInteger f target = .ok g ↔
      ∃ o, f.read target = .ok o ∧ f.set target (forgotten isInteger target o) = .ok g := by
  unfold forget forgotten
  rw [if_neg ht]
  split
  · constructor
    · intro h
      exact ⟨_, Frame.read_eq_ok.2 ⟨(Frame.set_eq_ok h).1, rfl⟩, h⟩
    · rintro ⟨o, -, h⟩
      exact h
  · constructor
    · exact Frame.havoc_eq_ok
    · rintro ⟨o, ho, h⟩
      rw [Frame.havoc_eq_set ho]
      exact h

theorem transfer_compute_eq_ok {isInteger : Slot → Bool} {f : Frame} {m : Mnemonic} {t : Slot} {as : List Slot}
    {aux : String} {ss : List Send} (h : (compute m t as aux).transfer isInteger f = .ok ss) :
    m.isAccess = false ∧ ∃ g, forget isInteger f t = .ok g ∧ ss = [⟨.next, g⟩] := by
  simp only [transfer] at h
  by_cases hm : m.isAccess = true
  · rw [if_pos hm] at h; cases h
  · rw [if_neg hm] at h
    obtain ⟨g, hg, rfl⟩ := map_eq_ok.1 h
    exact ⟨by simpa using hm, g, mapError_eq_ok.1 hg, rfl⟩

end Code

/-! ### Sends -/

/-- The code `c` sends `s` when the frame `f` reaches it. -/
inductive Sends (isInteger : Slot → Bool) (f : Frame) : Code → Send → Prop
  | const {t v g} (h : f.set t (v.toInt?.map .single) = .ok g) : Sends isInteger f (.const t v) ⟨.next, g⟩
  | assign {t s o g} (hr : f.read s = .ok o) (h : f.set t (Code.copied isInteger t s o) = .ok g) :
    Sends isInteger f (.assign t s) ⟨.next, g⟩
  | goto {l} : Sends isInteger f (.goto l) ⟨.jump l 0, f⟩
  | taken {a op b l r s holds fails g} (ha : f.read a = .ok (some r)) (hb : f.read b = .ok (some s))
    (hs : op.split r s = .ok (holds, fails)) (h : f.branch a b holds = .ok (some g)) :
    Sends isInteger f (.branch a op b l) ⟨.jump l 0, g⟩
  | passed {a op b l r s holds fails g} (ha : f.read a = .ok (some r)) (hb : f.read b = .ok (some s))
    (hs : op.split r s = .ok (holds, fails)) (h : f.branch a b fails = .ok (some g)) :
    Sends isInteger f (.branch a op b l) ⟨.next, g⟩
  | takenBlindly {a op b l x y} (ha : f.read a = .ok x) (hb : f.read b = .ok y) (h : x = none ∨ y = none) :
    Sends isInteger f (.branch a op b l) ⟨.jump l 0, f⟩
  | passedBlindly {a op b l x y} (ha : f.read a = .ok x) (hb : f.read b = .ok y) (h : x = none ∨ y = none) :
    Sends isInteger f (.branch a op b l) ⟨.next, f⟩
  | arm {a arms d o i arm g} (ha : f.read a = .ok o) (harm : arms[i]? = some arm)
    (h : Code.armFrame f a o arm.value = .ok (some g)) : Sends isInteger f (.switch a arms d) ⟨.jump arm.target i, g⟩
  | default {a arms d o} (ha : f.read a = .ok o) : Sends isInteger f (.switch a arms d) ⟨.jump d arms.length, f⟩
  | label {l} : Sends isInteger f (.label l) ⟨.next, f⟩
  | nop : Sends isInteger f .nop ⟨.next, f⟩
  | debug {a} : Sends isInteger f (.debug a) ⟨.next, f⟩
  | loop {body} : Sends isInteger f (.loop body) ⟨.enter, f⟩
  | bareLoop : Sends isInteger f .bareLoop ⟨.enter, f⟩
  | ret {as} : Sends isInteger f (.ret as) ⟨.exit, f⟩
  | compute {m t as aux o g} (hm : m.isAccess = false) (ht : t ≠ noSlot) (hr : f.read t = .ok o)
    (h : f.set t (Code.forgotten isInteger t o) = .ok g) : Sends isInteger f (.compute m t as aux) ⟨.next, g⟩
  | discard {m as aux} (hm : m.isAccess = false) : Sends isInteger f (.compute m noSlot as aux) ⟨.next, f⟩

section Transfer

variable {isInteger : Slot → Bool} {f : Frame}

theorem mem_toList_map {o : Option Frame} {e : Edge} {s : Send} :
    s ∈ (o.map (Send.mk e)).toList ↔ ∃ g, o = some g ∧ s = ⟨e, g⟩ := by
  rw [Option.mem_toList, Option.map_eq_some_iff]
  constructor
  · rintro ⟨g, hg, rfl⟩; exact ⟨g, hg, rfl⟩
  · rintro ⟨g, hg, rfl⟩; exact ⟨g, hg, rfl⟩

theorem mem_branchSends {a b : Slot} {op : Comparator} {l : String} {ss : List Send}
    (h : Code.branchSends f a op b l = .ok ss) (s : Send) : s ∈ ss ↔ Sends isInteger f (.branch a op b l) s := by
  rcases Code.branchSends_eq_ok h with
    ⟨x, y, hx, hy, hno, rfl⟩ | ⟨r, s', holds, fails, taken, passed, hx, hy, hsplit, htaken, hpassed, rfl⟩
  · constructor
    · intro hs
      rcases List.mem_cons.1 hs with rfl | hs
      · exact .takenBlindly hx hy hno
      · cases List.mem_singleton.1 hs
        exact .passedBlindly hx hy hno
    · intro hs
      cases hs with
      | taken ha hb hs _ => rw [hx] at ha; rw [hy] at hb; cases ha; cases hb; simp at hno
      | passed ha hb hs _ => rw [hx] at ha; rw [hy] at hb; cases ha; cases hb; simp at hno
      | takenBlindly => simp
      | passedBlindly => simp
  · rw [List.mem_append, mem_toList_map, mem_toList_map]
    constructor
    · rintro (⟨g, rfl, rfl⟩ | ⟨g, rfl, rfl⟩)
      · exact .taken hx hy hsplit htaken
      · exact .passed hx hy hsplit hpassed
    · intro hs
      cases hs with
      | taken ha hb hs hg =>
        rw [hx] at ha; rw [hy] at hb; cases ha; cases hb
        rw [hsplit] at hs; cases hs
        rw [htaken] at hg; cases hg
        exact .inl ⟨_, rfl, rfl⟩
      | passed ha hb hs hg =>
        rw [hx] at ha; rw [hy] at hb; cases ha; cases hb
        rw [hsplit] at hs; cases hs
        rw [hpassed] at hg; cases hg
        exact .inr ⟨_, rfl, rfl⟩
      | takenBlindly ha hb hno => rw [hx] at ha; rw [hy] at hb; cases ha; cases hb; simp at hno
      | passedBlindly ha hb hno => rw [hx] at ha; rw [hy] at hb; cases ha; cases hb; simp at hno

theorem mem_singleton_sends {c : Code} {s₀ : Send} (h : Sends isInteger f c s₀)
    (hunique : ∀ s, Sends isInteger f c s → s = s₀) (s : Send) : s ∈ [s₀] ↔ Sends isInteger f c s := by
  rw [List.mem_singleton]
  constructor
  · rintro rfl; exact h
  · exact hunique s

/-- `Sends` is what `transfer` computes. -/
theorem mem_transfer {c : Code} {ss : List Send} (h : c.transfer isInteger f = .ok ss) (s : Send) :
    s ∈ ss ↔ Sends isInteger f c s := by
  cases c with
  | const t v =>
    obtain ⟨g, hg, rfl⟩ := map_eq_ok.1 h
    rw [mapError_eq_ok, Code.load_eq_set] at hg
    refine mem_singleton_sends (.const hg) (fun s hs => ?_) s
    cases hs with
    | const hg' => rw [hg] at hg'; cases hg'; rfl
  | assign t a =>
    obtain ⟨g, hg, rfl⟩ := map_eq_ok.1 h
    obtain ⟨o, ho, hg⟩ := Code.copy_eq_ok.1 (mapError_eq_ok.1 hg)
    refine mem_singleton_sends (.assign ho hg) (fun s hs => ?_) s
    cases hs with
    | assign ho' hg' =>
      rw [ho] at ho'; cases ho'
      rw [hg] at hg'; cases hg'
      rfl
  | goto l => cases h; exact mem_singleton_sends .goto (fun s hs => by cases hs; rfl) s
  | branch a op b l => exact mem_branchSends (mapError_eq_ok.1 h) s
  | switch a arms d =>
    obtain ⟨o, ho, hss⟩ := bind_eq_ok.1 (mapError_eq_ok.1 h)
    rw [Code.mem_armSends hss]
    simp only [Nat.zero_add]
    constructor
    · rintro (⟨i, arm, g, harm, hg, rfl⟩ | rfl)
      · exact .arm ho harm hg
      · exact .default ho
    · intro hs
      cases hs with
      | arm ho' harm hg => rw [ho] at ho'; cases ho'; exact .inl ⟨_, _, _, harm, hg, rfl⟩
      | default => exact .inr rfl
  | label l => cases h; exact mem_singleton_sends .label (fun s hs => by cases hs; rfl) s
  | nop => cases h; exact mem_singleton_sends .nop (fun s hs => by cases hs; rfl) s
  | fail => cases h; exact ⟨fun hs => absurd hs List.not_mem_nil, fun hs => by cases hs⟩
  | debug a => cases h; exact mem_singleton_sends .debug (fun s hs => by cases hs; rfl) s
  | ret as => cases h; exact mem_singleton_sends .ret (fun s hs => by cases hs; rfl) s
  | loop body => cases h; exact mem_singleton_sends .loop (fun s hs => by cases hs; rfl) s
  | bareLoop => cases h; exact mem_singleton_sends .bareLoop (fun s hs => by cases hs; rfl) s
  | compute m t as aux =>
    obtain ⟨hm, g, hg, rfl⟩ := Code.transfer_compute_eq_ok h
    by_cases ht : t = noSlot
    · subst ht
      cases hg
      refine mem_singleton_sends (.discard hm) (fun s hs => ?_) s
      cases hs with
      | compute _ ht => exact absurd rfl ht
      | discard => rfl
    · obtain ⟨o, ho, hg⟩ := (Code.forget_eq_ok ht).1 hg
      refine mem_singleton_sends (.compute hm ht ho hg) (fun s hs => ?_) s
      cases hs with
      | compute _ _ ho' hg' =>
        rw [ho] at ho'; cases ho'
        rw [hg] at hg'; cases hg'
        rfl
      | discard => exact absurd rfl ht
  | hole => cases h

theorem Sends.size_eq {c : Code} {s : Send} (h : Sends isInteger f c s) : s.frame.size = f.size := by
  cases h with
  | const h => exact (Frame.set_eq_ok h).2.1
  | assign _ h => exact (Frame.set_eq_ok h).2.1
  | compute _ _ _ h => exact (Frame.set_eq_ok h).2.1
  | taken _ _ _ h => exact Frame.size_branch h
  | passed _ _ _ h => exact Frame.size_branch h
  | arm _ _ h => exact Code.size_armFrame h
  | _ => rfl

/-- The frames of a branch, when the greater frame tracks both operands and when it does not. -/
theorem branch_sends_mono {f' g : Frame} {a b : Slot} {r s : Interval} {o : Outcome} (hf : f ≤ f')
    (ha : f.read a = .ok (some r)) (hb : f.read b = .ok (some s)) (ho : o.Below (some (r, s)))
    (h : f.branch a b o = .ok (some g)) :
    (∃ r' s', f'.read a = .ok (some r') ∧ f'.read b = .ok (some s') ∧ r ≤ r' ∧ s ≤ s') ∨
      ∃ x y, f'.read a = .ok x ∧ f'.read b = .ok y ∧ (x = none ∨ y = none) ∧ g ≤ f' := by
  have hle : g ≤ f' := Frame.le_trans (Frame.branch_le ha hb ho h) hf
  obtain ⟨x, hx, hrx⟩ := Frame.read_mono hf ha
  obtain ⟨y, hy, hsy⟩ := Frame.read_mono hf hb
  cases x with
  | none => exact .inr ⟨none, y, hx, hy, .inl rfl, hle⟩
  | some r' =>
    cases y with
    | none => exact .inr ⟨some r', none, hx, hy, .inr rfl, hle⟩
    | some s' => exact .inl ⟨r', s', hx, hy, SlotBelow.some_some.1 hrx, SlotBelow.some_some.1 hsy⟩

/-- A greater frame sends a greater frame along the same edge. -/
theorem Sends.mono {f' : Frame} {c : Code} {s : Send} (hf : f ≤ f') (h : Sends isInteger f c s) :
    ∃ s', Sends isInteger f' c s' ∧ s'.edge = s.edge ∧ s.frame ≤ s'.frame := by
  cases h with
  | const h =>
    obtain ⟨g', hg', hle⟩ := Frame.set_mono hf (SlotBelow.refl _) h
    exact ⟨_, .const hg', rfl, hle⟩
  | assign hr h =>
    obtain ⟨o', hr', ho⟩ := Frame.read_mono hf hr
    obtain ⟨g', hg', hle⟩ := Frame.set_mono hf (Code.copied_mono ho) h
    exact ⟨_, .assign hr' hg', rfl, hle⟩
  | goto => exact ⟨_, .goto, rfl, hf⟩
  | taken ha hb hs h =>
    rcases branch_sends_mono hf ha hb (Comparator.split_within hs).1 h with
      ⟨r', s', ha', hb', hr, hs'⟩ | ⟨x, y, hx, hy, hno, hle⟩
    · obtain ⟨holds', fails', hsplit, hholds, -⟩ := Comparator.split_mono hr hs' hs
      obtain ⟨g', hg', hle⟩ := Frame.branch_mono hf hholds h
      exact ⟨_, .taken ha' hb' hsplit hg', rfl, hle⟩
    · exact ⟨_, .takenBlindly hx hy hno, rfl, hle⟩
  | passed ha hb hs h =>
    rcases branch_sends_mono hf ha hb (Comparator.split_within hs).2 h with
      ⟨r', s', ha', hb', hr, hs'⟩ | ⟨x, y, hx, hy, hno, hle⟩
    · obtain ⟨holds', fails', hsplit, -, hfails⟩ := Comparator.split_mono hr hs' hs
      obtain ⟨g', hg', hle⟩ := Frame.branch_mono hf hfails h
      exact ⟨_, .passed ha' hb' hsplit hg', rfl, hle⟩
    · exact ⟨_, .passedBlindly hx hy hno, rfl, hle⟩
  | takenBlindly ha hb hno =>
    obtain ⟨x', ha', hx⟩ := Frame.read_mono hf ha
    obtain ⟨y', hb', hy⟩ := Frame.read_mono hf hb
    exact ⟨_, .takenBlindly ha' hb' (hno.imp hx.eq_none hy.eq_none), rfl, hf⟩
  | passedBlindly ha hb hno =>
    obtain ⟨x', ha', hx⟩ := Frame.read_mono hf ha
    obtain ⟨y', hb', hy⟩ := Frame.read_mono hf hb
    exact ⟨_, .passedBlindly ha' hb' (hno.imp hx.eq_none hy.eq_none), rfl, hf⟩
  | arm ha harm h =>
    obtain ⟨o', ha', ho⟩ := Frame.read_mono hf ha
    obtain ⟨g', hg', hle⟩ := Code.armFrame_mono hf ha ho h
    exact ⟨_, .arm ha' harm hg', rfl, hle⟩
  | default ha =>
    obtain ⟨o', ha', -⟩ := Frame.read_mono hf ha
    exact ⟨_, .default ha', rfl, hf⟩
  | label => exact ⟨_, .label, rfl, hf⟩
  | nop => exact ⟨_, .nop, rfl, hf⟩
  | debug => exact ⟨_, .debug, rfl, hf⟩
  | loop => exact ⟨_, .loop, rfl, hf⟩
  | bareLoop => exact ⟨_, .bareLoop, rfl, hf⟩
  | ret => exact ⟨_, .ret, rfl, hf⟩
  | compute hm ht hr h =>
    obtain ⟨o', hr', ho⟩ := Frame.read_mono hf hr
    obtain ⟨g', hg', hle⟩ := Frame.set_mono hf (Code.forgotten_mono ho) h
    exact ⟨_, .compute hm ht hr' hg', rfl, hle⟩
  | discard hm => exact ⟨_, .discard hm, rfl, hf⟩

theorem exists_branchSends_mono {f' : Frame} {a b : Slot} {op : Comparator} {l : String} {ss : List Send}
    (hf : f ≤ f') (h : Code.branchSends f a op b l = .ok ss) : ∃ ss', Code.branchSends f' a op b l = .ok ss' := by
  obtain ⟨x, hx, h⟩ := bind_eq_ok.1 h
  obtain ⟨y, hy, h⟩ := bind_eq_ok.1 h
  obtain ⟨x', hx', hxx⟩ := Frame.read_mono hf hx
  obtain ⟨y', hy', hyy⟩ := Frame.read_mono hf hy
  cases x' with
  | none => exact ⟨_, bind_eq_ok.2 ⟨_, hx', bind_eq_ok.2 ⟨_, hy', rfl⟩⟩⟩
  | some r' =>
    cases y' with
    | none => exact ⟨_, bind_eq_ok.2 ⟨_, hx', bind_eq_ok.2 ⟨_, hy', rfl⟩⟩⟩
    | some s' =>
      obtain ⟨r, rfl, hr⟩ := hxx r' rfl
      obtain ⟨s, rfl, hs⟩ := hyy s' rfl
      obtain ⟨⟨holds, fails⟩, hsplit, -⟩ := bind_eq_ok.1 h
      obtain ⟨holds', fails', hsplit', -, -⟩ := Comparator.split_mono hr hs hsplit
      have ha : f'.Has a := (Frame.read_eq_ok.1 hx').1
      have hb : f'.Has b := (Frame.read_eq_ok.1 hy').1
      obtain ⟨taken, htaken⟩ := Frame.exists_branch ha hb holds'
      obtain ⟨passed, hpassed⟩ := Frame.exists_branch ha hb fails'
      exact ⟨_, bind_eq_ok.2 ⟨_, hx', bind_eq_ok.2 ⟨_, hy',
        bind_eq_ok.2 ⟨_, hsplit', bind_eq_ok.2 ⟨_, htaken, bind_eq_ok.2 ⟨_, hpassed, rfl⟩⟩⟩⟩⟩⟩

/-- A code that can be followed from a frame can be followed from a greater one. -/
theorem exists_transfer_mono {f' : Frame} {c : Code} {ss : List Send} (hf : f ≤ f')
    (h : c.transfer isInteger f = .ok ss) : ∃ ss', c.transfer isInteger f' = .ok ss' := by
  cases c with
  | const t v =>
    obtain ⟨g, hg, -⟩ := map_eq_ok.1 h
    rw [mapError_eq_ok, Code.load_eq_set] at hg
    obtain ⟨g', hg', -⟩ := Frame.set_mono hf (SlotBelow.refl _) hg
    exact ⟨_, map_eq_ok.2 ⟨g', mapError_eq_ok.2 ((Code.load_eq_set ..).trans hg'), rfl⟩⟩
  | assign t a =>
    obtain ⟨g, hg, -⟩ := map_eq_ok.1 h
    obtain ⟨o, ho, hg⟩ := Code.copy_eq_ok.1 (mapError_eq_ok.1 hg)
    obtain ⟨o', ho', hoo⟩ := Frame.read_mono hf ho
    obtain ⟨g', hg', -⟩ := Frame.set_mono hf (Code.copied_mono hoo) hg
    exact ⟨_, map_eq_ok.2 ⟨g', mapError_eq_ok.2 (Code.copy_eq_ok.2 ⟨o', ho', hg'⟩), rfl⟩⟩
  | branch a op b l =>
    obtain ⟨ss', hss'⟩ := exists_branchSends_mono hf (mapError_eq_ok.1 h)
    exact ⟨ss', mapError_eq_ok.2 hss'⟩
  | switch a arms d =>
    obtain ⟨o, ho, -⟩ := bind_eq_ok.1 (mapError_eq_ok.1 h)
    obtain ⟨o', ho', -⟩ := Frame.read_mono hf ho
    obtain ⟨ss', hss'⟩ := Code.exists_armSends (Frame.read_eq_ok.1 ho').1 o' d 0 arms
    exact ⟨ss', mapError_eq_ok.2 (bind_eq_ok.2 ⟨o', ho', hss'⟩)⟩
  | compute m t as aux =>
    obtain ⟨hm, g, hg, -⟩ := Code.transfer_compute_eq_ok h
    simp only [Code.transfer, hm, Bool.false_eq_true, if_false]
    by_cases ht : t = noSlot
    · subst ht; exact ⟨_, rfl⟩
    · obtain ⟨o, ho, hg⟩ := (Code.forget_eq_ok ht).1 hg
      obtain ⟨o', ho', hoo⟩ := Frame.read_mono hf ho
      obtain ⟨g', hg', -⟩ := Frame.set_mono hf (Code.forgotten_mono hoo) hg
      exact ⟨_, map_eq_ok.2 ⟨g', mapError_eq_ok.2 ((Code.forget_eq_ok ht).2 ⟨o', ho', hg'⟩), rfl⟩⟩
  | hole => cases h
  | _ => exact ⟨_, rfl⟩

end Transfer

end Narrowing
