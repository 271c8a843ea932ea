import Mathlib.Logic.Relation
import Narrowing.Analysis.Result
import Narrowing.Proofs.Flow

/-!
# Running bytecode

A store gives each slot a value.  A code acts on the store and takes one of its edges (`Code.Acts`), and the flow of the
block says where the edge leads (`Step`).  What a code computes is left open: any value may end up in its target.  A
run of a function starts with its preconditions, each of which has to return; its body starts from the store that the
last one leaves.
-/

namespace Narrowing

open Relation

/-- A constant, or an object that no constant denotes. -/
inductive Datum (Obj : Type) where
  | const (c : Constant)
  | object (o : Obj)

/-- What each slot holds. -/
def Store (Obj : Type) : Type := Slot → Datum Obj

variable {Obj : Type}

/-- The value is an integer of the interval. -/
def Datum.IsIn (v : Datum Obj) (r : Interval) : Prop := ∃ x : Int, v = .const (.int x) ∧ x ∈ r

/-- The store with another value in one slot. -/
def Store.set (σ : Store Obj) (n : Slot) (v : Datum Obj) : Store Obj := fun m => if m = n then v else σ m

@[simp] theorem Store.set_self (σ : Store Obj) (n : Slot) (v : Datum Obj) : σ.set n v n = v := if_pos rfl

theorem Store.set_ne (σ : Store Obj) {m n : Slot} (v : Datum Obj) (h : m ≠ n) : σ.set n v m = σ m := if_neg h

/-! ### Codes -/

/-- Whether a comparison holds.  Any two values are equal or not; only integers are ordered. -/
inductive Comparator.Decides : Comparator → Datum Obj → Datum Obj → Bool → Prop
  | eq_holds (v : Datum Obj) : Decides .eq v v true
  | eq_fails {v v' : Datum Obj} (h : v ≠ v') : Decides .eq v v' false
  | ne_holds {v v' : Datum Obj} (h : v ≠ v') : Decides .ne v v' true
  | ne_fails (v : Datum Obj) : Decides .ne v v false
  | lt (x y : Int) : Decides .lt (.const (.int x)) (.const (.int y)) (decide (x < y))
  | le (x y : Int) : Decides .le (.const (.int x)) (.const (.int y)) (decide (x ≤ y))
  | gt (x y : Int) : Decides .gt (.const (.int x)) (.const (.int y)) (decide (y < x))
  | ge (x y : Int) : Decides .ge (.const (.int x)) (.const (.int y)) (decide (y ≤ x))

/-- The code makes the second store of the first and leaves along the edge.  Nothing follows a failure or a hole. -/
inductive Code.Acts : Code → Store Obj → Edge → Store Obj → Prop
  | const {t v σ} : Acts (.const t v) σ .next (σ.set t (.const v))
  | assign {t s σ} : Acts (.assign t s) σ .next (σ.set t (σ s))
  | goto {l σ} : Acts (.goto l) σ (.jump l 0) σ
  | taken {a op b l σ} (h : op.Decides (σ a) (σ b) true) : Acts (.branch a op b l) σ (.jump l 0) σ
  | passed {a op b l σ} (h : op.Decides (σ a) (σ b) false) : Acts (.branch a op b l) σ .next σ
  | arm {a arms d σ} {i : Nat} {arm : Arm} (harm : arms[i]? = some arm) (h : σ a = .const arm.value)
    (hfirst : ∀ j < i, ∀ arm', arms[j]? = some arm' → σ a ≠ .const arm'.value) :
    Acts (.switch a arms d) σ (.jump arm.target i) σ
  | default {a arms d σ} (h : ∀ arm ∈ arms, σ a ≠ .const arm.value) : Acts (.switch a arms d) σ (.jump d arms.length) σ
  | label {l σ} : Acts (.label l) σ .next σ
  | nop {σ} : Acts .nop σ .next σ
  | debug {a σ} : Acts (.debug a) σ .next σ
  | loop {body σ} : Acts (.loop body) σ .enter σ
  | bareLoop {σ} : Acts .bareLoop σ .enter σ
  | ret {as σ} : Acts (.ret as) σ .exit σ
  | compute {m t as aux σ} (ht : t ≠ noSlot) (v : Datum Obj) : Acts (.compute m t as aux) σ .next (σ.set t v)
  | discard {m as aux σ} : Acts (.compute m noSlot as aux) σ .next σ

/-! ### Blocks -/

/-- A place in a block and the store there. -/
structure Config (Obj : Type) where
  place : Address
  store : Store Obj

/-- The code at a place acts, and control follows its edge. -/
inductive Step (g : Flow) : Config Obj → Config Obj → Prop
  | intro {a b : Address} {c : Code} {e : Edge} {σ σ' : Store Obj} (hc : g.codeAt? a = some c) (hact : c.Acts σ e σ')
    (hb : g.target? a e = some b) : Step g ⟨a, σ⟩ ⟨b, σ'⟩

/-- From the first store the block reaches a return with the second. -/
def Returns (b : Option Block) (σ σ' : Store Obj) : Prop :=
  ∃ a a' as, Flow.entry? (.ofBlock b) = some a ∧ ReflTransGen (Step (.ofBlock b)) ⟨a, σ⟩ ⟨a', σ'⟩ ∧
    (Flow.ofBlock b).codeAt? a' = some (.ret as)

/-- Each block in turn reaches a return with the store that the next one starts from. -/
inductive Passes : List (Option Block) → Store Obj → Store Obj → Prop
  | nil (σ : Store Obj) : Passes [] σ σ
  | cons {b : Option Block} {bs : List (Option Block)} {σ σ' σ'' : Store Obj} (h : Returns b σ σ')
    (hs : Passes bs σ' σ'') : Passes (b :: bs) σ σ''

/-! ### Declarations -/

/-- Each integer parameter holds a value of its type. -/
def FunctionDecl.Admits (f : FunctionDecl) (σ : Store Obj) : Prop :=
  ∀ (i : Nat) (v : Variable) (r : Interval), f.params[i]? = some v → v.type.range? = some r → (σ (i : Int)).IsIn r

/-- The judged variable holds a value of the type, if that is one of integers. -/
def TypeDecl.Admits (t : TypeDecl) (σ : Store Obj) : Prop := ∀ r, t.type.range? = some r → (σ 0).IsIn r

/-- Some run of the declaration gets to the place with the store. -/
inductive Decl.Reaches : Decl → Config Obj → Prop
  | function {f : FunctionDecl} {σ₀ σ : Store Obj} {a : Address} {c : Config Obj} (h₀ : f.Admits σ₀)
    (hpre : Passes f.preconditions σ₀ σ) (ha : Flow.entry? (.ofBlock f.code) = some a)
    (hrun : ReflTransGen (Step (.ofBlock f.code)) ⟨a, σ⟩ c) : Reaches (.function f) c
  | type {t : TypeDecl} {σ : Store Obj} {a : Address} {c : Config Obj} (h₀ : t.Admits σ)
    (ha : Flow.entry? (.ofBlock t.invariant) = some a) (hrun : ReflTransGen (Step (.ofBlock t.invariant)) ⟨a, σ⟩ c) :
    Reaches (.type t) c

end Narrowing
