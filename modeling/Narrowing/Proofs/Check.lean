import Narrowing.Check
import Narrowing.Proofs.Flow

/-!
# What a check establishes

No declaration of a file that passes has a flaw (`File.flaw?_of_check`).  For a block this says that each of its codes is
in order (`blockFlaw?_eq_none`): it is no hole, it has the operands it needs, its targets are labels of the block and the
slots it names are slots of the unit.  For the statements of a function it says that every variable that they mention is
one of the function's.
-/

namespace Narrowing

theorem orElse_eq_none {α : Type} {a b : Option α} : (a <|> b) = none ↔ a = none ∧ b = none := by
  cases a <;> simp

/-! ### Codes -/

theorem isSlotOf_iff {numSlots : Nat} {n : Slot} : isSlotOf numSlots n = true ↔ 0 ≤ n ∧ n < numSlots := by
  simp [isSlotOf]

/-- The labels that stand in a block tree. -/
def Flow.labelNames (g : Flow) : List String := g.points.filterMap (·.code.labelName?)

/-- A label that stands in a block is found there. -/
theorem Flow.exists_label? {g : Flow} {name : String} (h : name ∈ g.labelNames) : ∃ a, g.label? name = some a := by
  obtain ⟨p, hp, hname⟩ := List.mem_filterMap.1 h
  have hfind : (g.points.find? (·.code.labelName? == some name)).isSome := by
    rw [List.find?_isSome]
    exact ⟨p, hp, by simp [hname]⟩
  obtain ⟨q, hq⟩ := Option.isSome_iff_exists.1 hfind
  exact ⟨q.address, by rw [label?, hq]; rfl⟩

namespace Code

/-- The code can be followed in a unit with the given labels and number of slots. -/
structure InOrder (labels : List String) (numSlots : Nat) (c : Code) : Prop where
  not_hole : c ≠ .hole
  absent_none : c.absent? = none
  targets_mem : ∀ l ∈ c.targets, l ∈ labels
  slots_lt : ∀ s, c.slots = .ok s → ∀ n ∈ s.defs ++ s.uses, 0 ≤ n ∧ n < numSlots

theorem absent?_assign {t a : Slot} : (assign t a).absent? = none ↔ t ≠ noSlot ∧ a ≠ noSlot := by
  simp [absent?]

theorem absent?_branch {a b : Slot} {op : Comparator} {l : String} :
    (branch a op b l).absent? = none ↔ a ≠ noSlot ∧ b ≠ noSlot := by
  simp [absent?]

theorem slots_eq_error {c : Code} {e : Fault} : c.slots = .error e ↔ c = .hole ∧ e = .hole := by
  cases c <;> simp [slots, eq_comm]

theorem flaw?_eq_none {labels : List String} {numSlots : Nat} {c : Code} :
    c.flaw? labels numSlots = none ↔ c.InOrder labels numSlots := by
  unfold flaw?
  cases hs : c.slots with
  | error e =>
    obtain ⟨rfl, -⟩ := slots_eq_error.1 hs
    constructor
    · intro h; cases h
    · intro h; exact absurd rfl h.not_hole
  | ok s =>
    have hne : c ≠ .hole := by
      rintro rfl
      cases hs
    simp only [orElse_eq_none, Option.map_eq_none_iff, List.find?_eq_none, Bool.not_eq_true', Bool.not_eq_false,
      List.contains_eq_mem, decide_eq_true_eq, isSlotOf_iff]
    constructor
    · rintro ⟨habsent, htargets, hslots⟩
      refine ⟨hne, habsent, htargets, fun s' hs' => ?_⟩
      rw [hs] at hs'
      cases hs'
      exact hslots
    · intro h
      exact ⟨h.absent_none, h.targets_mem, h.slots_lt s hs⟩

end Code

/-! ### Blocks, units and files -/

theorem blockFlaw?_eq_none {numSlots : Nat} {b : Option Block} (h : blockFlaw? numSlots b = none) :
    ∀ p ∈ (Flow.ofBlock b).points, p.code.InOrder (Flow.ofBlock b).labelNames numSlots := by
  obtain ⟨-, hcodes⟩ := orElse_eq_none.1 h
  intro p hp
  exact Code.flaw?_eq_none.1 (List.findSome?_eq_none_iff.1 hcodes p hp)

/-- Every variable that a checked body mentions is one of the unit's. -/
theorem treeFlaw?_eq_none {numSlots : Nat} {body : List Stmt} :
    treeFlaw? numSlots body = none ↔
      ∀ node ∈ stmtsSubtrees (fun _ => true) body, ∀ n, node.slot? = some n → 0 ≤ n ∧ n < numSlots := by
  unfold treeFlaw?
  rw [List.findSome?_eq_none_iff]
  refine forall_congr' fun node => forall_congr' fun _ => ?_
  cases node.slot? with
  | none => simp
  | some n => simp [isSlotOf_iff]

namespace Decl

/-- The variables of a unit by slot. -/
def vars : Decl → List Variable
  | function f => f.vars
  | type t => t.vars

def numSlots (d : Decl) : Nat := d.vars.length

/-- The bytecode of a unit, in the order it is run. -/
def blocks : Decl → List (Option Block)
  | function f => f.preconditions ++ [f.code]
  | type t => [t.invariant]

theorem blockFlaw?_of_mem {d : Decl} {b : Option Block} (h : d.flaw? = none) (hb : b ∈ d.blocks) :
    blockFlaw? d.numSlots b = none := by
  cases d with
  | type t =>
    cases List.mem_singleton.1 hb
    exact h
  | function f =>
    obtain ⟨hpre, hrest⟩ := orElse_eq_none.1 h
    obtain ⟨hcode, -⟩ := orElse_eq_none.1 hrest
    rcases List.mem_append.1 hb with hb | hb
    · exact List.findSome?_eq_none_iff.1 hpre b hb
    · cases List.mem_singleton.1 hb
      exact hcode

end Decl

theorem flaw?_of_declsFlaw? {seen : List String} {ds : List Decl} (h : declsFlaw? seen ds = none) :
    ∀ d ∈ ds, d.flaw? = none := by
  induction ds generalizing seen with
  | nil => simp
  | cons d ds ih =>
    unfold declsFlaw? at h
    split at h
    · cases h
    · split at h
      · cases h
      · next hd =>
        intro d' hd'
        rcases List.mem_cons.1 hd' with rfl | hd'
        · exact hd
        · exact ih h d' hd'

/-- No declaration of a checked file has a flaw. -/
theorem File.flaw?_of_check {f : File} (h : f.check = .ok ()) : ∀ d ∈ f.decls, d.flaw? = none := by
  unfold File.check at h
  split at h
  · cases h
  · next hnone => exact flaw?_of_declsFlaw? hnone

end Narrowing
