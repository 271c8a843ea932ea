import Narrowing.Proofs.Transfer

/-!
# The footprint of codes

The frames that a code sends hold what the frame that reached it holds, but for the slots the code names as written.
Tests write nothing.  They narrow operands instead: a slot that holds an interval keeps one within it, and a slot that
holds nothing goes on to hold nothing.  `Frame.Footprint` says both, and `Sends.footprint` gives the footprint of each
sort of code in the slots it names.
-/

namespace Narrowing

/-- The codes that choose between edges by what their operands hold. -/
def Code.isTest : Code → Bool
  | branch .. | switch .. => true
  | _ => false

namespace Frame

/-! ### Named slots -/

section Named

variable {f : Frame} {n : Slot} {ns : List Slot}

theorem Has.mem_present (h : f.Has n) (hn : n ∈ ns) : n ∈ Code.slots.present ns := by
  refine Code.mem_present_iff.2 ⟨hn, ?_⟩
  rintro rfl
  exact absurd h.1 (by decide)

theorem mem_present_of_read {o : Option Interval} (h : f.read n = .ok o) (hn : n ∈ ns) : n ∈ Code.slots.present ns :=
  (read_eq_ok.1 h).1.mem_present hn

theorem mem_present_of_set {g : Frame} {o : Option Interval} (h : f.set n o = .ok g) : n ∈ Code.slots.present [n] :=
  (set_eq_ok h).1.mem_present List.mem_cons_self

theorem exists_read_of_mem_present (h : ∀ a ∈ ns, ∃ o, f.read a = .ok o) (hn : n ∈ Code.slots.present ns) :
    ∃ o, f.read n = .ok o :=
  h n (Code.mem_present_iff.1 hn).1

end Named

/-! ### Changes of frames -/

/-- `g` holds what `f` holds, apart from anything in the slots `written`, and apart from smaller intervals in those of
the slots `tested` that hold an interval. -/
def Footprint (written tested : List Slot) (f g : Frame) : Prop :=
  ∀ n, n ∉ written → g.read n = f.read n ∨
    n ∈ tested ∧ ∃ r r', f.read n = .ok (some r) ∧ g.read n = .ok (some r') ∧ r' ≤ r

namespace Footprint

variable {written tested : List Slot} {f g h : Frame}

protected theorem refl (f : Frame) : Footprint written tested f f := fun _ _ => .inl rfl

protected theorem trans (hfg : Footprint written tested f g) (hgh : Footprint written tested g h) :
    Footprint written tested f h := by
  intro n hn
  rcases hfg n hn with hfg | ⟨ht, r, r', hr, hr', hle⟩
  · rw [← hfg]
    exact hgh n hn
  · rcases hgh n hn with hgh | ⟨-, s, s', hs, hs', hle'⟩
    · exact .inr ⟨ht, r, r', hr, hgh.trans hr', hle⟩
    · rw [hr'] at hs
      cases hs
      exact .inr ⟨ht, r, s', hr, hs', Interval.le_trans hle' hle⟩

/-- Whatever is put into a slot to be written. -/
theorem of_set {n : Slot} {o : Option Interval} (hn : n ∈ written) (hset : f.set n o = .ok g) :
    Footprint written tested f g := by
  intro m hm
  have hmn : m ≠ n := fun hmn => hm (hmn ▸ hn)
  exact .inl (read_set_ne hmn.symm hset)

/-- A smaller interval put into a tested slot. -/
theorem of_write {n : Slot} {r r' : Interval} (hn : n ∈ tested) (hread : f.read n = .ok (some r)) (hle : r' ≤ r)
    (hwrite : f.write n r' = .ok g) : Footprint written tested f g := by
  intro m _
  by_cases hmn : m = n
  · subst hmn
    exact .inr ⟨hn, r, r', hread, read_set_self hwrite, hle⟩
  · exact .inl (read_set_ne (Ne.symm hmn) hwrite)

/-- The refined operands of a branch. -/
theorem of_branch {left right : Slot} {a b : Interval} {o : Outcome} (ha : f.read left = .ok (some a))
    (hb : f.read right = .ok (some b)) (ho : o.Below (some (a, b))) (hg : f.branch left right o = .ok (some g)) :
    Footprint written (Code.slots.present [left, right]) f g := by
  have hleft : left ∈ Code.slots.present [left, right] := mem_present_of_read ha (by simp)
  have hright : right ∈ Code.slots.present [left, right] := mem_present_of_read hb (by simp)
  rcases branch_writes ho hg with ⟨r, hle, hg⟩ | ⟨hne, a', b', k, ha', hb', hk, hg⟩
  · exact of_write hleft ha hle hg
  · have hkb : k.read right = .ok (some b) := (read_set_ne hne hk).trans hb
    exact (of_write hleft ha ha' hk).trans (of_write hright hkb hb' hg)

/-- The operand of a switch, as one of its arms knows it. -/
theorem of_armFrame {operand : Slot} {o : Option Interval} {v : Constant} (ho : f.read operand = .ok o)
    (hg : Code.armFrame f operand o v = .ok (some g)) : Footprint written (Code.slots.present [operand]) f g := by
  rcases Code.armFrame_eq_ok hg with ⟨r, n, s, rfl, -, hs, hg⟩ | ⟨-, rfl⟩
  · exact of_write (mem_present_of_read ho (by simp)) ho (Interval.inter?_le_left hs) hg
  · exact Footprint.refl g

theorem read_eq {n : Slot} (hfoot : Footprint written tested f g) (hw : n ∉ written) (ht : n ∉ tested) :
    g.read n = f.read n :=
  (hfoot n hw).resolve_right fun hn => ht hn.1

/-- A slot that is not written holds nothing if it held nothing, and otherwise an interval within the one it held. -/
theorem narrowed {n : Slot} {o : Option Interval} (hfoot : Footprint written tested f g) (hn : n ∉ written)
    (ho : f.read n = .ok o) :
    (f.read n = .ok none ∧ g.read n = .ok none) ∨
      ∃ r r', f.read n = .ok (some r) ∧ g.read n = .ok (some r') ∧ r' ≤ r := by
  rcases hfoot n hn with hsame | ⟨-, hnarrow⟩
  · rw [hsame, ho]
    cases o with
    | none => exact .inl ⟨rfl, rfl⟩
    | some r => exact .inr ⟨r, r, rfl, rfl, Interval.le_refl r⟩
  · exact .inr hnarrow

end Footprint

end Frame

/-! ### Footprints of codes -/

/-- The slots that a code may narrow, if it reads the given ones. -/
def Code.tested (c : Code) (uses : List Slot) : List Slot := if c.isTest then uses else []

theorem Code.mem_tested_iff {c : Code} {uses : List Slot} {n : Slot} :
    n ∈ c.tested uses ↔ c.isTest = true ∧ n ∈ uses := by
  unfold tested
  split <;> simp_all

section Sends

variable {isInteger : Slot → Bool} {f : Frame} {c : Code} {named : Code.Slots} {s : Send}

/-- What a code sends has the footprint that its slots announce. -/
theorem Sends.footprint (h : Sends isInteger f c s) (hnamed : c.slots = .ok named) :
    f.Footprint named.defs (c.tested named.uses) s.frame := by
  cases h with
  | const h => cases hnamed; exact .of_set (Frame.mem_present_of_set h) h
  | assign _ h => cases hnamed; exact .of_set (Frame.mem_present_of_set h) h
  | compute _ _ _ h => cases hnamed; exact .of_set (Frame.mem_present_of_set h) h
  | taken ha hb hs h => cases hnamed; exact .of_branch ha hb (Comparator.split_within hs).1 h
  | passed ha hb hs h => cases hnamed; exact .of_branch ha hb (Comparator.split_within hs).2 h
  | arm ha _ h => cases hnamed; exact .of_armFrame ha h
  -- all else is sent on as it came, whatever the slots are
  | _ => exact .refl f

/-- A test that sends something has found all its operands in the frame. -/
theorem Sends.exists_read {n : Slot} (h : Sends isInteger f c s) (htest : c.isTest = true)
    (hnamed : c.slots = .ok named) (hn : n ∈ named.uses) : ∃ o, f.read n = .ok o := by
  cases h with
  | taken ha hb => cases hnamed; exact Frame.exists_read_of_mem_present (by simp [ha, hb]) hn
  | passed ha hb => cases hnamed; exact Frame.exists_read_of_mem_present (by simp [ha, hb]) hn
  | takenBlindly ha hb => cases hnamed; exact Frame.exists_read_of_mem_present (by simp [ha, hb]) hn
  | passedBlindly ha hb => cases hnamed; exact Frame.exists_read_of_mem_present (by simp [ha, hb]) hn
  | arm ha => cases hnamed; exact Frame.exists_read_of_mem_present (by simp [ha]) hn
  | default ha => cases hnamed; exact Frame.exists_read_of_mem_present (by simp [ha]) hn
  | _ => cases htest

/-- Tests write nothing. -/
theorem Code.defs_eq_nil_of_isTest (htest : c.isTest = true) (hnamed : c.slots = .ok named) : named.defs = [] := by
  cases c with
  | branch a op b l => cases hnamed; rfl
  | switch a arms d => cases hnamed; rfl
  | _ => cases htest

theorem Code.exists_slots_of_transfer {ss : List Send} (h : c.transfer isInteger f = .ok ss) :
    ∃ named, c.slots = .ok named := by
  cases c with
  | hole => cases h
  | _ => exact ⟨_, rfl⟩

end Sends

/-- **Transfer touches only the slots a code names.**  A code that can be followed from a frame names its slots, and
every frame it sends holds what that frame holds in all slots but those named as written.  A test may change the slots
it names as read as well: each of them is one of the frame's and holds nothing before and after, or an interval before
and one within it after. -/
theorem transfer_touches_named_slots {isInteger : Slot → Bool} {f : Frame} {c : Code} {ss : List Send}
    (hss : c.transfer isInteger f = .ok ss) :
    ∃ named, c.slots = .ok named ∧ ∀ s ∈ ss,
      s.frame.size = f.size ∧
      (∀ n, n ∉ named.defs → (c.isTest = true → n ∉ named.uses) → s.frame.read n = f.read n) ∧
      (c.isTest = true → ∀ n ∈ named.uses,
        (f.read n = .ok none ∧ s.frame.read n = .ok none) ∨
          ∃ r r', f.read n = .ok (some r) ∧ s.frame.read n = .ok (some r') ∧ r.contains r' = true) := by
  obtain ⟨named, hnamed⟩ := Code.exists_slots_of_transfer hss
  refine ⟨named, hnamed, fun s hs => ?_⟩
  have hsends : Sends isInteger f c s := (mem_transfer hss s).1 hs
  have hfoot := hsends.footprint hnamed
  refine ⟨hsends.size_eq, fun n hdefs huses => ?_, fun htest n hn => ?_⟩
  · exact hfoot.read_eq hdefs fun hn => huses (Code.mem_tested_iff.1 hn).1 (Code.mem_tested_iff.1 hn).2
  · have hdefs : n ∉ named.defs := Code.defs_eq_nil_of_isTest htest hnamed ▸ List.not_mem_nil
    obtain ⟨o, ho⟩ := hsends.exists_read htest hnamed hn
    exact hfoot.narrowed hdefs ho

/-- The intervals of the first two slots overlap, and the third slot holds nothing. -/
def overlapFrame : Frame := ⟨[some ⟨.fin 0, .fin 7, by decide⟩, some ⟨.fin 2, .fin 6, by decide⟩, none]⟩

/-- What is left of `overlapFrame` where the first slot is smaller than the second. -/
def risingFrame : Frame := ⟨[some ⟨.fin 0, .fin 5, by decide⟩, some ⟨.fin 2, .fin 6, by decide⟩, none]⟩

/-- What is left of `overlapFrame` where it is not. -/
def fallingFrame : Frame := ⟨[some ⟨.fin 2, .fin 7, by decide⟩, some ⟨.fin 2, .fin 6, by decide⟩, none]⟩

theorem transfer_touches_named_slots_overlapFrame :
    (Code.branch 0 .lt 1 "out").transfer (fun _ => true) overlapFrame =
      .ok [⟨.jump "out" 0, risingFrame⟩, ⟨.next, fallingFrame⟩] ∧
    ∃ named, (Code.branch 0 .lt 1 "out").slots = .ok named ∧ named.defs = [] ∧ named.uses = [0, 1] ∧
      risingFrame.read 2 = overlapFrame.read 2 ∧
      ((overlapFrame.read 0 = .ok none ∧ risingFrame.read 0 = .ok none) ∨
        ∃ r r', overlapFrame.read 0 = .ok (some r) ∧ risingFrame.read 0 = .ok (some r') ∧ r.contains r' = true) := by
  have hss : (Code.branch 0 .lt 1 "out").transfer (fun _ => true) overlapFrame =
      .ok [⟨.jump "out" 0, risingFrame⟩, ⟨.next, fallingFrame⟩] := rfl
  obtain ⟨named, hnamed, hall⟩ := transfer_touches_named_slots hss
  obtain ⟨-, hsame, hnarrowed⟩ := hall ⟨.jump "out" 0, risingFrame⟩ List.mem_cons_self
  cases hnamed
  exact ⟨hss, _, rfl, rfl, rfl, hsame 2 (by decide) (fun _ => by decide), hnarrowed rfl 0 (by decide)⟩

end Narrowing
