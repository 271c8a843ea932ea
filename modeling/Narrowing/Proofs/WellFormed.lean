import Mathlib.Data.List.Pairwise
import Narrowing.Proofs.Check
import Narrowing.Proofs.Occurrence
import Narrowing.Proofs.Transfer

/-!
# Well-formed files

What the check accepts, said without it.  A code stands at a path of offsets in a block tree (`StandsAt`), and a subtree
occurs in a statement tree.  A file is well-formed if its declarations have different names, the codes that stand in its
blocks are in order (`WellFormedBlock`), and the variables that occur in its statements are variables of their function
(`WellFormedTree`).  `check` accepts exactly the well-formed files.
-/

namespace Narrowing

/-! ### Places in a block tree -/

/-- The offsets lead from the outside in to the code, through the bodies of loops. -/
inductive StandsAt : List Code → List Nat → Code → Prop
  | here {codes : List Code} {i : Nat} {c : Code} (h : codes[i]? = some c) : StandsAt codes [i] c
  | inside {codes body : List Code} {i : Nat} {path : List Nat} {c : Code} (hloop : codes[i]? = some (.loop body))
    (h : StandsAt body path c) : StandsAt codes (i :: path) c

theorem StandsAt.exists_cons {codes : List Code} {path : List Nat} {c : Code} (h : StandsAt codes path c) :
    ∃ i rest, path = i :: rest := by
  cases h with
  | here => exact ⟨_, _, rfl⟩
  | inside => exact ⟨_, _, rfl⟩

theorem standsAt_cons_zero {d c : Code} {ds : List Code} {rest : List Nat} :
    StandsAt (d :: ds) (0 :: rest) c ↔ rest = [] ∧ c = d ∨ StandsAt d.body rest c := by
  constructor
  · rintro (h | ⟨hloop, h⟩)
    · exact .inl ⟨rfl, (Option.some.inj h).symm⟩
    · rw [Option.some.inj hloop]
      exact .inr h
  · rintro (⟨rfl, rfl⟩ | h)
    · exact .here rfl
    · cases d with
      | loop body => exact .inside rfl h
      | _ => cases h with
        | here h => cases h
        | inside hloop => cases hloop

theorem standsAt_cons_succ {d c : Code} {ds : List Code} {i : Nat} {rest : List Nat} :
    StandsAt (d :: ds) ((i + 1) :: rest) c ↔ StandsAt ds (i :: rest) c := by
  constructor
  · rintro (h | ⟨hloop, h⟩)
    · exact .here h
    · exact .inside hloop h
  · rintro (h | ⟨hloop, h⟩)
    · exact .here h
    · exact .inside hloop h

theorem not_standsAt_nil {path : List Nat} {c : Code} : ¬ StandsAt [] path c := by
  rintro (h | ⟨hloop, -⟩)
  · cases h
  · cases hloop

/-- The points of a block are the codes that stand in it, each with the offsets that lead to it. -/
theorem standsAt_iff_mem_blockPoints {codes : List Code} {c : Code} (loops : List Nat) (offset i : Nat)
    (rest : List Nat) : StandsAt codes (i :: rest) c ↔
      ∃ p ∈ blockPoints loops offset codes, p.address.offsets = loops ++ (offset + i) :: rest ∧ p.code = c := by
  induction codes using block_induction generalizing loops offset i rest with
  | nil =>
    rw [blockPoints]
    simp [not_standsAt_nil]
  | cons d ds ihbody ihrest =>
    constructor
    · intro h
      cases i with
      | zero =>
        rcases standsAt_cons_zero.1 h with ⟨rfl, rfl⟩ | h
        · exact ⟨_, mem_blockPoints_cons.2 (.inl rfl), rfl, rfl⟩
        · obtain ⟨j, more, rfl⟩ := h.exists_cons
          obtain ⟨p, hp, ho, hc⟩ := (ihbody (loops ++ [offset]) 0 j more).1 h
          refine ⟨p, mem_blockPoints_cons.2 (.inr (.inl hp)), ?_, hc⟩
          simpa using ho
      | succ i =>
        obtain ⟨p, hp, ho, hc⟩ := (ihrest loops (offset + 1) i rest).1 (standsAt_cons_succ.1 h)
        refine ⟨p, mem_blockPoints_cons.2 (.inr (.inr hp)), ?_, hc⟩
        rw [ho, Nat.add_assoc, Nat.add_comm 1 i]
    · rintro ⟨p, hp, ho, hc⟩
      rcases mem_blockPoints_cons.1 hp with rfl | hp | hp
      · have heq : [offset] = (offset + i) :: rest := List.append_cancel_left ho
        obtain ⟨hi, rfl⟩ := List.cons_eq_cons.1 heq
        obtain rfl : i = 0 := by omega
        exact standsAt_cons_zero.2 (.inl ⟨rfl, hc.symm⟩)
      · obtain ⟨k, more, -, hk⟩ := offsets_of_mem hp
        have heq : offset :: k :: more = (offset + i) :: rest := by
          rw [hk, List.append_assoc] at ho
          exact List.append_cancel_left ho
        obtain ⟨hi, rfl⟩ := List.cons_eq_cons.1 heq
        obtain rfl : i = 0 := by omega
        refine standsAt_cons_zero.2 (.inr ((ihbody (loops ++ [offset]) 0 k more).2 ⟨p, hp, ?_, hc⟩))
        rw [hk, Nat.zero_add]
      · obtain ⟨k, more, hle, hk⟩ := offsets_of_mem hp
        have heq : k :: more = (offset + i) :: rest := by
          rw [hk] at ho
          exact List.append_cancel_left ho
        obtain ⟨rfl, rfl⟩ := List.cons_eq_cons.1 heq
        obtain ⟨j, rfl⟩ : ∃ j, i = j + 1 := ⟨i - 1, by omega⟩
        refine standsAt_cons_succ.2 ((ihrest loops (offset + 1) j more).2 ⟨p, hp, ?_, hc⟩)
        rw [hk, Nat.add_assoc, Nat.add_comm 1 j]

theorem standsAt_iff_mem_points {b : Block} {path : List Nat} {c : Code} :
    StandsAt b path c ↔ ∃ p ∈ (Flow.ofBlock (some b)).points, p.address.offsets = path ∧ p.code = c := by
  cases path with
  | nil =>
    refine ⟨fun h => ?_, fun ⟨p, hp, ho, hc⟩ => ?_⟩
    · obtain ⟨i, rest, hcons⟩ := h.exists_cons
      cases hcons
    · exact absurd ho (by simp [Address.offsets])
  | cons i rest =>
    rw [standsAt_iff_mem_blockPoints [] 0, Nat.zero_add]
    exact Iff.rfl

/-- A code stands somewhere in a block if it is the code of a point. -/
theorem exists_standsAt_iff {b : Block} {c : Code} :
    (∃ path, StandsAt b path c) ↔ ∃ p ∈ (Flow.ofBlock (some b)).points, p.code = c := by
  constructor
  · rintro ⟨path, h⟩
    obtain ⟨p, hp, -, hc⟩ := standsAt_iff_mem_points.1 h
    exact ⟨p, hp, hc⟩
  · rintro ⟨p, hp, hc⟩
    exact ⟨p.address.offsets, standsAt_iff_mem_points.2 ⟨p, hp, rfl, hc⟩⟩

/-! ### Labels -/

theorem labelName?_eq_some {c : Code} {name : String} : c.labelName? = some name ↔ c = .label name := by
  cases c <;> simp [Code.labelName?]

theorem mem_labelNames_iff {b : Block} {name : String} :
    name ∈ (Flow.ofBlock (some b)).labelNames ↔ ∃ path, StandsAt b path (.label name) := by
  rw [exists_standsAt_iff]
  exact List.mem_filterMap.trans (exists_congr fun p => and_congr_right fun _ => labelName?_eq_some)

/-- Going through names, each of which is put to those seen once it is found to be none of them. -/
theorem nodup_cons_unseen_iff {name : String} {names seen : List String} :
    ((name :: names).Nodup ∧ ∀ x ∈ name :: names, x ∉ seen) ↔
      name ∉ seen ∧ names.Nodup ∧ ∀ x ∈ names, x ∉ name :: seen := by
  simp only [List.nodup_cons, List.mem_cons, forall_eq_or_imp, not_or]
  constructor
  · rintro ⟨⟨hname, hnodup⟩, hseen, hfresh⟩
    exact ⟨hseen, hnodup, fun x hx => ⟨fun heq => hname (heq ▸ hx), hfresh x hx⟩⟩
  · rintro ⟨hseen, hnodup, hfresh⟩
    exact ⟨⟨fun h => (hfresh name h).1 rfl, hnodup⟩, hseen, fun x hx => (hfresh x hx).2⟩

theorem repeatedLabel?_eq_none {seen : List String} {ps : List Point} :
    repeatedLabel? seen ps = none ↔
      (ps.filterMap (·.code.labelName?)).Nodup ∧ ∀ name ∈ ps.filterMap (·.code.labelName?), name ∉ seen := by
  induction ps generalizing seen with
  | nil => simp [repeatedLabel?]
  | cons p ps ih =>
    unfold repeatedLabel?
    split
    · next name hname =>
      have hnames : (p :: ps).filterMap (·.code.labelName?) = name :: ps.filterMap (·.code.labelName?) :=
        List.filterMap_cons_some (labelName?_eq_some.2 hname)
      rw [hnames, nodup_cons_unseen_iff, ← ih]
      by_cases hseen : name ∈ seen <;> simp [hseen]
    · next hname =>
      have hlabel : p.code.labelName? = none := by
        cases hopt : p.code.labelName? with
        | none => rfl
        | some name => exact absurd (labelName?_eq_some.1 hopt) (hname name)
      have hnames : (p :: ps).filterMap (·.code.labelName?) = ps.filterMap (·.code.labelName?) :=
        List.filterMap_cons_none hlabel
      rw [hnames, ih]

/-- No name is carried by two labels of a block. -/
theorem nodup_labelNames_iff {b : Block} :
    (Flow.ofBlock (some b)).labelNames.Nodup ↔
      ∀ name path path', StandsAt b path (.label name) → StandsAt b path' (.label name) → path = path' := by
  have hsorted : (Flow.ofBlock (some b)).points.Pairwise
      fun p q => List.Lex (· < ·) p.address.offsets q.address.offsets := pairwise_offsets [] 0 b
  rw [Flow.labelNames, List.Nodup, List.pairwise_filterMap]
  constructor
  · intro h name path path' hpath hpath'
    obtain ⟨p, hp, rfl, hpc⟩ := standsAt_iff_mem_points.1 hpath
    obtain ⟨q, hq, rfl, hqc⟩ := standsAt_iff_mem_points.1 hpath'
    by_contra hne
    have hpq : p ≠ q := fun heq => hne (congrArg (·.address.offsets) heq)
    have hsymm : Std.Symm fun p q : Point =>
        ∀ x, p.code.labelName? = some x → ∀ y, q.code.labelName? = some y → x ≠ y :=
      ⟨fun p q hpq x hx y hy heq => hpq y hy x hx heq.symm⟩
    exact h.forall hp hq hpq name (labelName?_eq_some.2 hpc) name (labelName?_eq_some.2 hqc) rfl
  · intro h
    refine hsorted.imp_of_mem fun {p q} hp hq hlex name hname name' hname' heq => ?_
    subst heq
    have hoffsets := h name _ _ (standsAt_iff_mem_points.2 ⟨p, hp, rfl, labelName?_eq_some.1 hname⟩)
      (standsAt_iff_mem_points.2 ⟨q, hq, rfl, labelName?_eq_some.1 hname'⟩)
    rw [hoffsets] at hlex
    exact List.lex_irrefl (fun n => Nat.lt_irrefl n) _ hlex

/-! ### Codes -/

namespace Code

/-- The code may go on at the label. -/
inductive GoesTo : Code → String → Prop
  | goto {l : String} : GoesTo (.goto l) l
  | branch {a b : Slot} {op : Comparator} {l : String} : GoesTo (.branch a op b l) l
  | arm {a : Slot} {arms : List Arm} {d : String} {arm : Arm} (h : arm ∈ arms) : GoesTo (.switch a arms d) arm.target
  | default {a : Slot} {arms : List Arm} {d : String} : GoesTo (.switch a arms d) d

/-- The slot is a target or an operand that the code cannot do without. -/
inductive Needs : Code → Slot → Prop
  | constTarget {t : Slot} {v : Constant} : Needs (.const t v) t
  | assignTarget {t s : Slot} : Needs (.assign t s) t
  | assignOperand {t s : Slot} : Needs (.assign t s) s
  | branchLeft {a b : Slot} {op : Comparator} {l : String} : Needs (.branch a op b l) a
  | branchRight {a b : Slot} {op : Comparator} {l : String} : Needs (.branch a op b l) b

/-- The slot is a target or an operand of the code. -/
inductive Mentions : Code → Slot → Prop
  | needed {c : Code} {n : Slot} (h : c.Needs n) : Mentions c n
  | switch {a : Slot} {arms : List Arm} {d : String} : Mentions (.switch a arms d) a
  | debug {a : Slot} : Mentions (.debug a) a
  | ret {as : List Slot} {n : Slot} (h : n ∈ as) : Mentions (.ret as) n
  | computeTarget {m : Mnemonic} {t : Slot} {as : List Slot} {aux : String} : Mentions (.compute m t as aux) t
  | computeOperand {m : Mnemonic} {t n : Slot} {as : List Slot} {aux : String} (h : n ∈ as) :
    Mentions (.compute m t as aux) n

theorem mem_targets_iff {c : Code} {l : String} : l ∈ c.targets ↔ c.GoesTo l := by
  constructor
  · intro h
    cases c with
    | goto l' => cases List.mem_singleton.1 h; exact .goto
    | branch a op b l' => cases List.mem_singleton.1 h; exact .branch
    | switch a arms d =>
      rcases List.mem_append.1 h with h | h
      · obtain ⟨arm, harm, rfl⟩ := List.mem_map.1 h
        exact .arm harm
      · cases List.mem_singleton.1 h
        exact .default
    | _ => cases h
  · intro h
    cases h with
    | goto => exact List.mem_singleton.2 rfl
    | branch => exact List.mem_singleton.2 rfl
    | arm harm => exact List.mem_append_left _ (List.mem_map_of_mem harm)
    | default => exact List.mem_append_right _ (List.mem_singleton.2 rfl)

theorem absent?_eq_none_iff {c : Code} : c.absent? = none ↔ ∀ n, c.Needs n → n ≠ noSlot := by
  constructor
  · intro h n hn
    cases hn with
    | constTarget => simpa [absent?] using h
    | assignTarget => exact (absent?_assign.1 h).1
    | assignOperand => exact (absent?_assign.1 h).2
    | branchLeft => exact (absent?_branch.1 h).1
    | branchRight => exact (absent?_branch.1 h).2
  · intro h
    cases c with
    | const t v => simpa [absent?] using h t .constTarget
    | assign t s => exact absent?_assign.2 ⟨h t .assignTarget, h s .assignOperand⟩
    | branch a op b l => exact absent?_branch.2 ⟨h a .branchLeft, h b .branchRight⟩
    | _ => rfl

/-- The slots that a code names are those it mentions, absent ones apart. -/
theorem mem_slots_iff {c : Code} {s : Slots} {n : Slot} (hs : c.slots = .ok s) :
    n ∈ s.defs ++ s.uses ↔ c.Mentions n ∧ n ≠ noSlot := by
  rw [List.mem_append]
  constructor
  · intro h
    cases c with
    | const t v =>
      cases hs
      simp only [mem_present_iff, List.mem_singleton, List.not_mem_nil, or_false] at h
      obtain ⟨rfl, hn⟩ := h
      exact ⟨.needed .constTarget, hn⟩
    | assign t a =>
      cases hs
      simp only [mem_present_iff, List.mem_singleton] at h
      rcases h with ⟨rfl, hn⟩ | ⟨rfl, hn⟩
      · exact ⟨.needed .assignTarget, hn⟩
      · exact ⟨.needed .assignOperand, hn⟩
    | branch a op b l =>
      cases hs
      simp only [mem_present_iff, List.mem_cons, List.not_mem_nil, or_false, false_or] at h
      obtain ⟨rfl | rfl, hn⟩ := h
      · exact ⟨.needed .branchLeft, hn⟩
      · exact ⟨.needed .branchRight, hn⟩
    | switch a arms d =>
      cases hs
      simp only [mem_present_iff, List.mem_singleton, List.not_mem_nil, false_or] at h
      obtain ⟨rfl, hn⟩ := h
      exact ⟨.switch, hn⟩
    | debug a =>
      cases hs
      simp only [mem_present_iff, List.mem_singleton, List.not_mem_nil, false_or] at h
      obtain ⟨rfl, hn⟩ := h
      exact ⟨.debug, hn⟩
    | ret as =>
      cases hs
      simp only [mem_present_iff, List.not_mem_nil, false_or] at h
      exact ⟨.ret h.1, h.2⟩
    | compute m t as aux =>
      cases hs
      simp only [mem_present_iff, List.mem_singleton] at h
      rcases h with ⟨rfl, hn⟩ | ⟨hmem, hn⟩
      · exact ⟨.computeTarget, hn⟩
      · exact ⟨.computeOperand hmem, hn⟩
    | hole => cases hs
    | _ =>
      cases hs
      simp at h
  · rintro ⟨hm, hn⟩
    have hpresent : ∀ {ns : List Slot}, n ∈ ns → n ∈ slots.present ns := fun h => mem_present_iff.2 ⟨h, hn⟩
    cases hm with
    | needed h =>
      cases h with
      | constTarget => cases hs; exact .inl (hpresent List.mem_cons_self)
      | assignTarget => cases hs; exact .inl (hpresent List.mem_cons_self)
      | assignOperand => cases hs; exact .inr (hpresent List.mem_cons_self)
      | branchLeft => cases hs; exact .inr (hpresent List.mem_cons_self)
      | branchRight => cases hs; exact .inr (hpresent (List.mem_cons_of_mem _ List.mem_cons_self))
    | switch => cases hs; exact .inr (hpresent List.mem_cons_self)
    | debug => cases hs; exact .inr (hpresent List.mem_cons_self)
    | ret h => cases hs; exact .inr (hpresent h)
    | computeTarget => cases hs; exact .inl (hpresent List.mem_cons_self)
    | computeOperand h => cases hs; exact .inr (hpresent h)

end Code

/-! ### Blocks -/

/-- The codes of a block tree are in order for a unit with the given number of slots. -/
structure WellFormedBlock (numSlots : Nat) (b : Block) : Prop where
  no_hole : ∀ path, ¬ StandsAt b path .hole
  labels_differ : ∀ name path path', StandsAt b path (.label name) → StandsAt b path' (.label name) → path = path'
  targets_stand : ∀ path c l, StandsAt b path c → c.GoesTo l → ∃ path', StandsAt b path' (.label l)
  needed_present : ∀ path c n, StandsAt b path c → c.Needs n → n ≠ noSlot
  slots_in_range : ∀ path c n, StandsAt b path c → c.Mentions n → n = noSlot ∨ 0 ≤ n ∧ n < numSlots

theorem blockFlaw?_eq_none_iff {numSlots : Nat} {b : Option Block} :
    blockFlaw? numSlots b = none ↔ (Flow.ofBlock b).labelNames.Nodup ∧
      ∀ p ∈ (Flow.ofBlock b).points, p.code.InOrder (Flow.ofBlock b).labelNames numSlots := by
  have hlabels : repeatedLabel? [] (Flow.ofBlock b).points = none ↔ (Flow.ofBlock b).labelNames.Nodup := by
    rw [repeatedLabel?_eq_none]
    exact and_iff_left fun name _ => List.not_mem_nil
  have hcodes : ((Flow.ofBlock b).points.findSome? fun p => p.code.flaw? (Flow.ofBlock b).labelNames numSlots) = none ↔
      ∀ p ∈ (Flow.ofBlock b).points, p.code.InOrder (Flow.ofBlock b).labelNames numSlots := by
    rw [List.findSome?_eq_none_iff]
    exact forall₂_congr fun p _ => Code.flaw?_eq_none
  exact orElse_eq_none.trans (and_congr hlabels hcodes)

/-- A code is in order among the labels of its block. -/
theorem inOrder_iff {numSlots : Nat} {b : Block} {c : Code} :
    c.InOrder (Flow.ofBlock (some b)).labelNames numSlots ↔
      c ≠ .hole ∧ (∀ l, c.GoesTo l → ∃ path, StandsAt b path (.label l)) ∧ (∀ n, c.Needs n → n ≠ noSlot) ∧
        ∀ n, c.Mentions n → n = noSlot ∨ 0 ≤ n ∧ n < numSlots := by
  have htargets : (∀ l ∈ c.targets, l ∈ (Flow.ofBlock (some b)).labelNames) ↔
      ∀ l, c.GoesTo l → ∃ path, StandsAt b path (.label l) :=
    forall_congr' fun l => imp_congr Code.mem_targets_iff mem_labelNames_iff
  constructor
  · rintro ⟨hhole, habsent, htgt, hslots⟩
    refine ⟨hhole, htargets.1 htgt, Code.absent?_eq_none_iff.1 habsent, fun n hn => ?_⟩
    cases hs : c.slots with
    | error e => exact absurd (Code.slots_eq_error.1 hs).1 hhole
    | ok s =>
      by_cases hno : n = noSlot
      · exact .inl hno
      · exact .inr (hslots s hs n ((Code.mem_slots_iff hs).2 ⟨hn, hno⟩))
  · rintro ⟨hhole, htgt, hneeds, hmentions⟩
    refine ⟨hhole, Code.absent?_eq_none_iff.2 hneeds, htargets.2 htgt, fun s hs n hn => ?_⟩
    obtain ⟨hm, hno⟩ := (Code.mem_slots_iff hs).1 hn
    exact (hmentions n hm).resolve_left hno

theorem blockFlaw?_some_eq_none_iff {numSlots : Nat} {b : Block} :
    blockFlaw? numSlots (some b) = none ↔ WellFormedBlock numSlots b := by
  rw [blockFlaw?_eq_none_iff, nodup_labelNames_iff]
  constructor
  · rintro ⟨hlabels, hcodes⟩
    have hcode : ∀ path c, StandsAt b path c → c.InOrder (Flow.ofBlock (some b)).labelNames numSlots := by
      intro path c h
      obtain ⟨p, hp, -, rfl⟩ := standsAt_iff_mem_points.1 h
      exact hcodes p hp
    exact
      { no_hole := fun path h => (hcode path .hole h).not_hole rfl
        labels_differ := hlabels
        targets_stand := fun path c l h hl => (inOrder_iff.1 (hcode path c h)).2.1 l hl
        needed_present := fun path c n h hn => (inOrder_iff.1 (hcode path c h)).2.2.1 n hn
        slots_in_range := fun path c n h hn => (inOrder_iff.1 (hcode path c h)).2.2.2 n hn }
  · intro h
    refine ⟨h.labels_differ, fun p hp => ?_⟩
    have hstands : StandsAt b p.address.offsets p.code := standsAt_iff_mem_points.2 ⟨p, hp, rfl, rfl⟩
    exact inOrder_iff.2 ⟨fun hhole => h.no_hole _ (hhole ▸ hstands), fun l => h.targets_stand _ _ l hstands,
      fun n => h.needed_present _ _ n hstands, fun n => h.slots_in_range _ _ n hstands⟩

theorem blockFlaw?_none (numSlots : Nat) : blockFlaw? numSlots none = none := by
  refine blockFlaw?_eq_none_iff.2 ?_
  simp [Flow.ofBlock, Flow.labelNames, blockPoints]

/-! ### Statements -/

/-- The statement or expression itself names the slot. -/
inductive Subtree.Names : Subtree → Slot → Prop
  | decl {n : Slot} {init : Expr} : Names (.stmt (.decl n init)) n
  | declAlias {n : Slot} : Names (.stmt (.declAlias n)) n
  | var {n : Slot} : Names (.expr (.var n)) n
  | quantifier {u : Bool} {n : Slot} {low high body : Expr} : Names (.expr (.quantifier u n low high body)) n

theorem Subtree.slot?_eq_some_iff {node : Subtree} {n : Slot} : node.slot? = some n ↔ node.Names n := by
  constructor
  · intro h
    unfold Subtree.slot? at h
    split at h
    · cases h; exact .decl
    · cases h; exact .declAlias
    · cases h; exact .var
    · cases h; exact .quantifier
    · cases h
  · intro h
    cases h <;> rfl

/-- The variables that occur in the statements are among the given number of slots. -/
def WellFormedTree (numSlots : Nat) (body : List Stmt) : Prop :=
  ∀ s ∈ body, ∀ node : Subtree, node.Occurs (.stmt s) → ∀ n, node.Names n → 0 ≤ n ∧ n < numSlots

theorem treeFlaw?_eq_none_iff {numSlots : Nat} {body : List Stmt} :
    treeFlaw? numSlots body = none ↔ WellFormedTree numSlots body := by
  rw [treeFlaw?_eq_none]
  constructor
  · intro h s hs node hocc n hn
    have hhole : ¬ node.IsHole := by
      rintro (rfl | rfl) <;> cases hn
    exact h node (mem_stmtsSubtrees_iff.2 ⟨s, hs, hocc, hhole⟩) n (Subtree.slot?_eq_some_iff.2 hn)
  · intro h node hnode n hn
    obtain ⟨s, hs, hocc, -⟩ := mem_stmtsSubtrees_iff.1 hnode
    exact h s hs node hocc n (Subtree.slot?_eq_some_iff.1 hn)

/-! ### Files -/

/-- The file is in order. -/
structure File.WellFormed (f : File) : Prop where
  names_differ : (f.decls.map Decl.name).Nodup
  blocks_wellFormed : ∀ d ∈ f.decls, ∀ b, some b ∈ d.blocks → WellFormedBlock d.numSlots b
  trees_wellFormed : ∀ fn, .function fn ∈ f.decls → ∀ body, fn.body = some body → WellFormedTree fn.numSlots body

theorem blockFlaw?_blocks_iff {numSlots : Nat} {bs : List (Option Block)} :
    (∀ b ∈ bs, blockFlaw? numSlots b = none) ↔ ∀ b, some b ∈ bs → WellFormedBlock numSlots b := by
  constructor
  · intro h b hb
    exact blockFlaw?_some_eq_none_iff.1 (h (some b) hb)
  · intro h b hb
    cases b with
    | none => exact blockFlaw?_none numSlots
    | some b => exact blockFlaw?_some_eq_none_iff.2 (h b hb)

theorem Decl.flaw?_eq_none_iff {d : Decl} :
    d.flaw? = none ↔ (∀ b, some b ∈ d.blocks → WellFormedBlock d.numSlots b) ∧
      ∀ fn, d = .function fn → ∀ body, fn.body = some body → WellFormedTree fn.numSlots body := by
  rw [← blockFlaw?_blocks_iff]
  cases d with
  | type t =>
    constructor
    · intro h
      exact ⟨fun b hb => List.mem_singleton.1 hb ▸ h, nofun⟩
    · intro h
      exact h.1 t.invariant (List.mem_singleton.2 rfl)
  | function f =>
    have hblocks : (∀ b ∈ (Decl.function f).blocks, blockFlaw? f.numSlots b = none) ↔
        f.preconditions.findSome? (blockFlaw? f.numSlots) = none ∧ blockFlaw? f.numSlots f.code = none := by
      rw [Decl.blocks, List.forall_mem_append, List.forall_mem_singleton, List.findSome?_eq_none_iff]
    have htree : treeFlaw? f.numSlots (f.body.getD []) = none ↔
        ∀ fn, Decl.function f = .function fn → ∀ body, fn.body = some body → WellFormedTree fn.numSlots body := by
      rw [treeFlaw?_eq_none_iff]
      constructor
      · intro h fn hfn body hbody
        cases hfn
        rw [hbody] at h
        exact h
      · intro h
        cases hbody : f.body with
        | none => exact fun s hs => absurd hs List.not_mem_nil
        | some body => exact h f rfl body hbody
    rw [← htree]
    show (_ <|> _ <|> _) = none ↔ (∀ b ∈ (Decl.function f).blocks, blockFlaw? f.numSlots b = none) ∧ _
    rw [orElse_eq_none, orElse_eq_none, hblocks, and_assoc]

theorem declsFlaw?_eq_none_iff {seen : List String} {ds : List Decl} :
    declsFlaw? seen ds = none ↔
      ((ds.map Decl.name).Nodup ∧ ∀ name ∈ ds.map Decl.name, name ∉ seen) ∧ ∀ d ∈ ds, d.flaw? = none := by
  induction ds generalizing seen with
  | nil => simp [declsFlaw?]
  | cons d ds ih =>
    rw [List.map_cons, nodup_cons_unseen_iff, List.forall_mem_cons]
    unfold declsFlaw?
    by_cases hseen : d.name ∈ seen
    · simp [hseen]
    · cases hd : d.flaw? with
      | some flaw => simp [hseen]
      | none => simp [hseen, ih]

theorem File.check_eq_ok_iff {f : File} : f.check = .ok () ↔ declsFlaw? [] f.decls = none := by
  unfold File.check
  cases declsFlaw? [] f.decls <;> simp

/-- **The check accepts exactly the well-formed files.** -/
theorem check_accepts_iff_wellFormed (f : File) : f.check = .ok () ↔ f.WellFormed := by
  rw [File.check_eq_ok_iff, declsFlaw?_eq_none_iff]
  constructor
  · rintro ⟨⟨hnames, -⟩, hdecls⟩
    exact
      { names_differ := hnames
        blocks_wellFormed := fun d hd => (Decl.flaw?_eq_none_iff.1 (hdecls d hd)).1
        trees_wellFormed := fun fn hfn => (Decl.flaw?_eq_none_iff.1 (hdecls _ hfn)).2 fn rfl }
  · intro h
    refine ⟨⟨h.names_differ, fun _ _ => List.not_mem_nil⟩, fun d hd => Decl.flaw?_eq_none_iff.2 ?_⟩
    refine ⟨h.blocks_wellFormed d hd, fun fn hfn => ?_⟩
    subst hfn
    exact h.trees_wellFormed fn hd

end Narrowing
