import Narrowing.Container.Body
import Narrowing.Emit.Stmt
import Narrowing.Proofs.Frame

/-!
# Trees that can be printed

A tree can be printed if it has no hole where something is printed and uses operators and calls as what they are.  The
trees that containers hold are all of this kind.
-/

namespace Narrowing

/-! ### Trees without holes -/

namespace Expr

mutual

/-- No hole in what is printed of the expression, and operators only where they belong. -/
def isPrintable : Expr → Bool
  | .const _ => true
  | .var _ => true
  | .unary op x => op.isUnary && x.isPrintable
  | .binary op x y => !op.isUnary && x.isPrintable && y.isPrintable
  | .convert _ x => x.isPrintable
  | .deref x => x.isPrintable
  | .field x _ => x.isPrintable
  | .length x => x.isPrintable
  | .index x i => x.isPrintable && i.isPrintable
  | .array es => allPrintable es
  | .fill v n => v.isPrintable && n.isPrintable
  | .record fs => fieldsPrintable fs
  | .invoke _ es => allPrintable es
  | .indirect fn es => fn.isPrintable && allPrintable es
  | .new x => x.isPrintable
  | .lambda .. => true
  | .quantifier .. => true
  | .is .. => true
  | .hole => false

def allPrintable : List Expr → Bool
  | [] => true
  | x :: xs => x.isPrintable && allPrintable xs

def fieldsPrintable : List (String × Expr) → Bool
  | [] => true
  | (_, x) :: fs => x.isPrintable && fieldsPrintable fs

end

end Expr

mutual

/-- No hole in what is printed of the statement, and only calls are called. -/
def Stmt.isPrintable : Stmt → Bool
  | .block body => stmtsPrintable body
  | .decl _ .hole => true
  | .decl _ x => x.isPrintable
  | .declAlias _ => true
  | .assign [] [y] => y.isPrintable
  | .assign [x] [y] => x.isPrintable && y.isPrintable
  | .assign _ _ => true
  | .assert x => x.isPrintable
  | .assume x => x.isPrintable
  | .break => true
  | .continue => true
  | .debug _ => true
  | .doWhile body x => stmtsPrintable body && x.isPrintable
  | .fail => true
  | .ifThen x yes => x.isPrintable && stmtsPrintable yes
  | .ifElse x yes no => x.isPrintable && stmtsPrintable yes && stmtsPrintable no
  | .call x => x.isCall && x.isPrintable
  | .named _ body => stmtsPrintable body
  | .while x body => x.isPrintable && stmtsPrintable body
  | .ret [x] => x.isPrintable
  | .ret _ => true
  | .skip => true
  | .switch x cs => x.isPrintable && clausesPrintable cs
  | .hole => false

/-- Each statement can be printed. -/
def stmtsPrintable : List Stmt → Bool
  | [] => true
  | s :: ss => s.isPrintable && stmtsPrintable ss

def clausesPrintable : List (List Constant × List Stmt) → Bool
  | [] => true
  | (_, body) :: cs => stmtsPrintable body && clausesPrintable cs

end

namespace Expr

theorem allPrintable_iff {xs : List Expr} : allPrintable xs = true ↔ ∀ x ∈ xs, x.isPrintable = true := by
  induction xs with
  | nil => simp [allPrintable]
  | cons x xs ih => simp [allPrintable, ih]

theorem fieldsPrintable_iff {fs : List (String × Expr)} :
    fieldsPrintable fs = true ↔ ∀ p ∈ fs, p.2.isPrintable = true := by
  induction fs with
  | nil => simp [fieldsPrintable]
  | cons p fs ih => simp [fieldsPrintable, ih]

end Expr

theorem stmtsPrintable_iff {ss : List Stmt} : stmtsPrintable ss = true ↔ ∀ s ∈ ss, s.isPrintable = true := by
  induction ss with
  | nil => simp [stmtsPrintable]
  | cons s ss ih => simp [stmtsPrintable, ih]

theorem clausesPrintable_iff {cs : List (List Constant × List Stmt)} :
    clausesPrintable cs = true ↔ ∀ p ∈ cs, stmtsPrintable p.2 = true := by
  induction cs with
  | nil => simp [clausesPrintable]
  | cons p cs ih => simp [clausesPrintable, ih]

/-! ### Expressions in containers -/

namespace Container

open Yaml

theorem sizeOf_item_lt {items : List Node} {m : Node} (h : m ∈ items) (line : Nat) :
    sizeOf m < sizeOf (Node.sequence line items) := by
  have := List.sizeOf_lt_of_mem h
  rw [Node.sequence.sizeOf_spec]
  omega

/-- What an operator is found as by its key. -/
theorem isUnary_of_lookup {ops : List (String × Operator)} {b : Bool} (hops : ∀ p ∈ ops, p.2.isUnary = b) {key : String}
    {op : Operator} (h : ops.lookup key = some op) : op.isUnary = b := by
  obtain ⟨l₁, l₂, hsplit, -⟩ := List.lookup_eq_some_iff.1 h
  exact hops (key, op) (by rw [hsplit]; simp)

theorem isPrintable_of_quantifier {s : Scope} {isUniversal : Bool} {v : Node} {x : Expr}
    (h : quantifier s isUniversal v = .ok x) : x.isPrintable = true := by
  unfold quantifier at h
  obtain ⟨⟨es, hes⟩, -, h⟩ := bind_eq_ok.1 h
  obtain ⟨name, -, h⟩ := bind_eq_ok.1 h
  obtain ⟨slot, -, h⟩ := bind_eq_ok.1 h
  obtain ⟨low, -, h⟩ := bind_eq_ok.1 h
  obtain ⟨x, -, h⟩ := bind_eq_ok.1 h
  obtain ⟨high, -, h⟩ := bind_eq_ok.1 h
  obtain ⟨y, -, h⟩ := bind_eq_ok.1 h
  obtain ⟨body, -, h⟩ := bind_eq_ok.1 h
  obtain ⟨z, -, h⟩ := bind_eq_ok.1 h
  cases h
  rfl

/-- The node is read as a tree that can be printed, if it is read as one at all. -/
def Yields (s : Scope) (n : Node) : Prop := ∀ x, expr s n = .ok x → x.isPrintable = true

section Expressions

variable {s : Scope} {n v : Node}

theorem isPrintable_of_typed (hv : ∀ m : Node, sizeOf m < sizeOf v → Yields s m) {p : Ty × Expr}
    (h : typed s v = .ok p) : p.2.isPrintable = true := by
  unfold typed at h
  obtain ⟨⟨es, hes⟩, -, h⟩ := bind_eq_ok.1 h
  obtain ⟨t, -, h⟩ := bind_eq_ok.1 h
  dsimp only at h
  split at h
  · cases h
  · obtain ⟨⟨m, hm⟩, -, h⟩ := bind_eq_ok.1 h
    obtain ⟨x, hx, h⟩ := bind_eq_ok.1 h
    cases h
    exact hv m (Nat.lt_trans hm hes) x hx

theorem fieldsPrintable_of_fieldValues (hv : ∀ m : Node, sizeOf m < sizeOf v → Yields s m)
    {fs : List (String × Expr)} (h : fieldValues s v = .ok fs) : Expr.fieldsPrintable fs = true := by
  unfold fieldValues at h
  split at h
  · next line es =>
    refine Expr.fieldsPrintable_iff.2 (forall_of_mapM ?_ h)
    rintro ⟨e, he⟩ - p hp
    obtain ⟨x, hx, rfl⟩ := map_eq_ok.1 hp
    have hlt : sizeOf e.2 < sizeOf (Node.mapping line es) := by
      have := sizeOf_value_lt he
      rw [Node.mapping.sizeOf_spec]
      omega
    exact hv e.2 hlt x hx
  · cases h

theorem allPrintable_of_exprs (hv : ∀ m : Node, sizeOf m ≤ sizeOf v → Yields s m) {xs : List Expr}
    (h : exprs s v = .ok xs) : Expr.allPrintable xs = true := by
  unfold exprs at h
  split at h
  · cases h
    rfl
  · next line items =>
    refine Expr.allPrintable_iff.2 (forall_of_mapM ?_ h)
    rintro ⟨m, hm⟩ - x hx
    exact hv m (Nat.le_of_lt (sizeOf_item_lt hm line)) x hx
  · obtain ⟨x, hx, rfl⟩ := map_eq_ok.1 h
    exact Expr.allPrintable_iff.2 fun y hy => List.mem_singleton.1 hy ▸ hv _ (Nat.le_refl _) x hx

/-- A node yields a printable tree if all smaller nodes do. -/
theorem yields_of_smaller (hn : ∀ m : Node, sizeOf m < sizeOf n → Yields s m) : Yields s n := by
  intro x h
  unfold expr at h
  split at h
  · obtain ⟨slot, -, h⟩ := bind_eq_ok.1 h
    cases h
    rfl
  · obtain ⟨c, -, h⟩ := bind_eq_ok.1 h
    cases h
    rfl
  obtain ⟨⟨key, v, hv⟩, -, h⟩ := bind_eq_ok.1 h
  have hpart : ∀ m : Node, sizeOf m ≤ sizeOf v → Yields s m := fun m hm => hn m (Nat.lt_of_le_of_lt hm hv)
  have hinner : ∀ m : Node, sizeOf m < sizeOf v → Yields s m := fun m hm => hpart m (Nat.le_of_lt hm)
  dsimp only at h
  split at h
  · next op hop =>
    obtain ⟨⟨⟨a, ha⟩, ⟨b, hb⟩⟩, -, h⟩ := bind_eq_ok.1 h
    obtain ⟨x, hx, h⟩ := bind_eq_ok.1 h
    obtain ⟨y, hy, h⟩ := bind_eq_ok.1 h
    cases h
    have hbinary : op.isUnary = false := isUnary_of_lookup (by decide) hop
    simp only [Expr.isPrintable, hbinary, hinner a ha x hx, hinner b hb y hy, Bool.not_false, Bool.and_self]
  · next op _ hop =>
    obtain ⟨x, hx, h⟩ := bind_eq_ok.1 h
    cases h
    have hunary : op.isUnary = true := isUnary_of_lookup (by decide) hop
    simp only [Expr.isPrintable, hunary, hpart v (Nat.le_refl _) x hx, Bool.and_self]
  split at h
  · -- what a reference refers to
    obtain ⟨x, hx, h⟩ := bind_eq_ok.1 h
    cases h
    exact hpart v (Nat.le_refl _) x hx
  · -- a length
    obtain ⟨x, hx, h⟩ := bind_eq_ok.1 h
    cases h
    exact hpart v (Nat.le_refl _) x hx
  · -- a new object
    obtain ⟨x, hx, h⟩ := bind_eq_ok.1 h
    cases h
    exact hpart v (Nat.le_refl _) x hx
  · -- a conversion
    obtain ⟨⟨type, x⟩, hx, h⟩ := bind_eq_ok.1 h
    cases h
    exact isPrintable_of_typed hinner hx
  · -- a type test
    obtain ⟨⟨type, x⟩, -, h⟩ := bind_eq_ok.1 h
    cases h
    rfl
  · -- a field
    obtain ⟨⟨es, hes⟩, -, h⟩ := bind_eq_ok.1 h
    obtain ⟨⟨a, ha⟩, -, h⟩ := bind_eq_ok.1 h
    obtain ⟨x, hx, h⟩ := bind_eq_ok.1 h
    obtain ⟨name, -, h⟩ := bind_eq_ok.1 h
    cases h
    exact hinner a (Nat.lt_trans ha hes) x hx
  · -- an element
    obtain ⟨⟨⟨a, ha⟩, ⟨b, hb⟩⟩, -, h⟩ := bind_eq_ok.1 h
    obtain ⟨x, hx, h⟩ := bind_eq_ok.1 h
    obtain ⟨i, hi, h⟩ := bind_eq_ok.1 h
    cases h
    exact Bool.and_eq_true_iff.2 ⟨hinner a ha x hx, hinner b hb i hi⟩
  · -- an array
    obtain ⟨es, hes, h⟩ := bind_eq_ok.1 h
    cases h
    exact allPrintable_of_exprs hpart hes
  · -- copies of a value
    obtain ⟨⟨⟨a, ha⟩, ⟨b, hb⟩⟩, -, h⟩ := bind_eq_ok.1 h
    obtain ⟨x, hx, h⟩ := bind_eq_ok.1 h
    obtain ⟨size, hsize, h⟩ := bind_eq_ok.1 h
    cases h
    exact Bool.and_eq_true_iff.2 ⟨hinner a ha x hx, hinner b hb size hsize⟩
  · -- a record
    obtain ⟨fs, hfs, h⟩ := bind_eq_ok.1 h
    cases h
    exact fieldsPrintable_of_fieldValues hinner hfs
  · -- an invocation by name
    obtain ⟨⟨es, hes⟩, -, h⟩ := bind_eq_ok.1 h
    obtain ⟨name, -, h⟩ := bind_eq_ok.1 h
    split at h
    · next args hargs _ =>
      obtain ⟨xs, hxs, h⟩ := bind_eq_ok.1 h
      cases h
      exact allPrintable_of_exprs (fun m hm => hinner m (Nat.lt_of_le_of_lt hm (Nat.lt_trans hargs hes))) hxs
    · cases h
      rfl
  · -- an invocation by value
    obtain ⟨⟨es, hes⟩, -, h⟩ := bind_eq_ok.1 h
    obtain ⟨⟨a, ha⟩, -, h⟩ := bind_eq_ok.1 h
    obtain ⟨fn, hfn, h⟩ := bind_eq_ok.1 h
    have hfn := hinner a (Nat.lt_trans ha hes) fn hfn
    split at h
    · next args hargs _ =>
      obtain ⟨xs, hxs, h⟩ := bind_eq_ok.1 h
      cases h
      have hxs := allPrintable_of_exprs (fun m hm => hinner m (Nat.lt_of_le_of_lt hm (Nat.lt_trans hargs hes))) hxs
      exact Bool.and_eq_true_iff.2 ⟨hfn, hxs⟩
    · cases h
      exact Bool.and_eq_true_iff.2 ⟨hfn, rfl⟩
  · -- a lambda
    obtain ⟨es, -, h⟩ := bind_eq_ok.1 h
    obtain ⟨params, -, h⟩ := bind_eq_ok.1 h
    cases h
    rfl
  · exact isPrintable_of_quantifier h
  · exact isPrintable_of_quantifier h
  · cases h

/-- Every expression in a container can be printed. -/
theorem yields (s : Scope) (n : Node) : Yields s n := yields_of_smaller fun m _ => yields s m
termination_by sizeOf n

end Expressions

/-! ### Statements in containers -/

section Statements

variable {s : Scope} {n v : Node}

/-- The node is read as a statement that can be printed, if it is read as one at all. -/
def YieldsStmt (s : Scope) (n : Node) : Prop := ∀ x, statement s n = .ok x → x.isPrintable = true

theorem isPrintable_of_exprAt {es : List (Node × Node)} {key : String} {x : Expr} (h : exprAt s n es key = .ok x) :
    x.isPrintable = true := by
  obtain ⟨m, -, h⟩ := bind_eq_ok.1 h
  exact yields s m.1 x h

theorem allPrintable_exprs {xs : List Expr} (h : exprs s n = .ok xs) : Expr.allPrintable xs = true :=
  allPrintable_of_exprs (fun m _ => yields s m) h

theorem stmtsPrintable_of_statements (hv : ∀ m : Node, sizeOf m < sizeOf v → YieldsStmt s m) {ss : List Stmt}
    (h : statements s v = .ok ss) : stmtsPrintable ss = true := by
  unfold statements at h
  split at h
  · cases h
    rfl
  · next line items =>
    refine stmtsPrintable_iff.2 (forall_of_mapM ?_ h)
    rintro ⟨m, hm⟩ - x hx
    exact hv m (sizeOf_item_lt hm line) x hx
  · cases h

theorem isPrintable_of_loop (hv : ∀ m : Node, sizeOf m < sizeOf v → YieldsStmt s m) {p : Expr × List Stmt}
    (h : loop s v = .ok p) : p.1.isPrintable = true ∧ stmtsPrintable p.2 = true := by
  unfold loop at h
  obtain ⟨⟨es, hes⟩, -, h⟩ := bind_eq_ok.1 h
  obtain ⟨cond, hcond, h⟩ := bind_eq_ok.1 h
  obtain ⟨⟨b, hb⟩, -, h⟩ := bind_eq_ok.1 h
  obtain ⟨body, hbody, h⟩ := bind_eq_ok.1 h
  cases h
  have hinner : ∀ m : Node, sizeOf m < sizeOf b → YieldsStmt s m := fun m hm =>
    hv m (Nat.lt_trans hm (Nat.lt_trans hb hes))
  exact ⟨isPrintable_of_exprAt hcond, stmtsPrintable_of_statements hinner hbody⟩

theorem clausesPrintable_of_clauses (hv : ∀ m : Node, sizeOf m < sizeOf v → YieldsStmt s m)
    {cs : List (List Constant × List Stmt)} (h : clauses s v = .ok cs) : clausesPrintable cs = true := by
  unfold clauses at h
  split at h
  · next line items =>
    refine clausesPrintable_iff.2 (forall_of_mapM ?_ h)
    rintro ⟨c, hc⟩ - p hp
    have hlt : sizeOf c < sizeOf (Node.sequence line items) := sizeOf_item_lt hc line
    dsimp only at hp
    unfold clause at hp
    obtain ⟨⟨es, hes⟩, -, hp⟩ := bind_eq_ok.1 hp
    obtain ⟨values, -, hp⟩ := bind_eq_ok.1 hp
    obtain ⟨⟨b, hb⟩, -, hp⟩ := bind_eq_ok.1 hp
    obtain ⟨body, hbody, hp⟩ := bind_eq_ok.1 hp
    cases hp
    refine stmtsPrintable_of_statements (fun m hm => hv m ?_) hbody
    exact Nat.lt_trans hm (Nat.lt_trans hb (Nat.lt_trans hes hlt))
  · cases h

theorem isPrintable_of_wordStatement? {word : String} {x : Stmt} (h : wordStatement? word = some x) :
    x.isPrintable = true := by
  unfold wordStatement? at h
  split at h <;> cases h <;> rfl

theorem isPrintable_assign {lhs rhs : List Expr} (hlhs : Expr.allPrintable lhs = true)
    (hrhs : Expr.allPrintable rhs = true) : (Stmt.assign lhs rhs).isPrintable = true := by
  rw [Expr.allPrintable_iff] at hlhs hrhs
  unfold Stmt.isPrintable
  split <;> simp_all

theorem isPrintable_ret {es : List Expr} (h : Expr.allPrintable es = true) : (Stmt.ret es).isPrintable = true := by
  rw [Expr.allPrintable_iff] at h
  unfold Stmt.isPrintable
  split <;> simp_all

theorem isPrintable_decl {n : Slot} {x : Expr} (h : x.isPrintable = true) : (Stmt.decl n x).isPrintable = true := by
  unfold Stmt.isPrintable
  split <;> simp_all

/-- A node yields a printable statement if all smaller nodes do. -/
theorem yieldsStmt_of_smaller (hn : ∀ m : Node, sizeOf m < sizeOf n → YieldsStmt s m) : YieldsStmt s n := by
  intro x h
  unfold statement at h
  split at h
  · split at h
    · next hword =>
      cases h
      exact isPrintable_of_wordStatement? hword
    · cases h
  obtain ⟨⟨key, v, hv⟩, -, h⟩ := bind_eq_ok.1 h
  have hinner : ∀ m : Node, sizeOf m < sizeOf v → YieldsStmt s m := fun m hm => hn m (Nat.lt_trans hm hv)
  have hbelow : ∀ {es : List (Node × Node)} {b : Node}, sizeOf b < sizeOf es → sizeOf es < sizeOf v →
      ∀ m : Node, sizeOf m < sizeOf b → YieldsStmt s m :=
    fun hb hes m hm => hinner m (Nat.lt_trans hm (Nat.lt_trans hb hes))
  dsimp only at h
  split at h
  · -- a declaration
    obtain ⟨es, -, h⟩ := bind_eq_ok.1 h
    obtain ⟨name, -, h⟩ := bind_eq_ok.1 h
    obtain ⟨slot, -, h⟩ := bind_eq_ok.1 h
    split at h
    · next m hm _ =>
      obtain ⟨x, hx, h⟩ := bind_eq_ok.1 h
      cases h
      exact isPrintable_decl (yields s m x hx)
    · cases h
      rfl
  · -- an alias
    obtain ⟨slot, -, h⟩ := bind_eq_ok.1 h
    cases h
    rfl
  · -- an assignment
    obtain ⟨es, -, h⟩ := bind_eq_ok.1 h
    split at h
    · obtain ⟨lhs, hlhs, h⟩ := bind_eq_ok.1 h
      obtain ⟨m, -, h⟩ := bind_eq_ok.1 h
      obtain ⟨rhs, hrhs, h⟩ := bind_eq_ok.1 h
      cases h
      exact isPrintable_assign (allPrintable_exprs hlhs) (allPrintable_exprs hrhs)
    · obtain ⟨lhs, hlhs, h⟩ := bind_eq_ok.1 h
      obtain ⟨m, -, h⟩ := bind_eq_ok.1 h
      obtain ⟨rhs, hrhs, h⟩ := bind_eq_ok.1 h
      cases h
      cases hlhs
      exact isPrintable_assign rfl (allPrintable_exprs hrhs)
  · obtain ⟨x, hx, h⟩ := bind_eq_ok.1 h
    cases h
    exact yields s v x hx
  · obtain ⟨x, hx, h⟩ := bind_eq_ok.1 h
    cases h
    exact yields s v x hx
  · obtain ⟨x, hx, h⟩ := bind_eq_ok.1 h
    cases h
    rfl
  · -- a call
    obtain ⟨x, hx, h⟩ := bind_eq_ok.1 h
    have hx := yields s v x hx
    split at h
    · cases h
      exact hx
    · cases h
      exact hx
    · cases h
  · -- a return
    obtain ⟨es, hes, h⟩ := bind_eq_ok.1 h
    cases h
    exact isPrintable_ret (allPrintable_exprs hes)
  · -- a conditional
    obtain ⟨⟨es, hes⟩, -, h⟩ := bind_eq_ok.1 h
    obtain ⟨cond, hcond, h⟩ := bind_eq_ok.1 h
    obtain ⟨⟨b, hb⟩, -, h⟩ := bind_eq_ok.1 h
    obtain ⟨yes, hyes, h⟩ := bind_eq_ok.1 h
    have hcond := isPrintable_of_exprAt hcond
    have hyes : stmtsPrintable yes = true := stmtsPrintable_of_statements (hbelow hb hes) hyes
    split at h
    · next b' hb' _ =>
      obtain ⟨no, hno, h⟩ := bind_eq_ok.1 h
      cases h
      have hno : stmtsPrintable no = true := stmtsPrintable_of_statements (hbelow hb' hes) hno
      simp only [Stmt.isPrintable, hcond, hyes, hno, Bool.and_self]
    · cases h
      exact Bool.and_eq_true_iff.2 ⟨hcond, hyes⟩
  · -- a loop
    obtain ⟨p, hp, h⟩ := bind_eq_ok.1 h
    obtain ⟨hcond, hbody⟩ := isPrintable_of_loop hinner hp
    cases h
    exact Bool.and_eq_true_iff.2 ⟨hcond, hbody⟩
  · -- a loop with its condition at the end
    obtain ⟨p, hp, h⟩ := bind_eq_ok.1 h
    obtain ⟨hcond, hbody⟩ := isPrintable_of_loop hinner hp
    cases h
    exact Bool.and_eq_true_iff.2 ⟨hbody, hcond⟩
  · -- a named block
    obtain ⟨⟨es, hes⟩, -, h⟩ := bind_eq_ok.1 h
    obtain ⟨name, -, h⟩ := bind_eq_ok.1 h
    split at h
    · cases h
    · obtain ⟨⟨b, hb⟩, -, h⟩ := bind_eq_ok.1 h
      obtain ⟨body, hbody, h⟩ := bind_eq_ok.1 h
      cases h
      exact stmtsPrintable_of_statements (hbelow hb hes) hbody
  · -- a switch
    obtain ⟨⟨es, hes⟩, -, h⟩ := bind_eq_ok.1 h
    obtain ⟨tag, htag, h⟩ := bind_eq_ok.1 h
    obtain ⟨⟨b, hb⟩, -, h⟩ := bind_eq_ok.1 h
    obtain ⟨cs, hcs, h⟩ := bind_eq_ok.1 h
    cases h
    have hcs : clausesPrintable cs = true := clausesPrintable_of_clauses (hbelow hb hes) hcs
    exact Bool.and_eq_true_iff.2 ⟨isPrintable_of_exprAt htag, hcs⟩
  · cases h

theorem yieldsStmt (s : Scope) (n : Node) : YieldsStmt s n := yieldsStmt_of_smaller fun m _ => yieldsStmt s m
termination_by sizeOf n

/-- Every body in a container can be printed. -/
theorem stmtsPrintable_of_container {s : Scope} {n : Node} {body : List Stmt} (h : statements s n = .ok body) :
    stmtsPrintable body = true := stmtsPrintable_of_statements (fun m _ => yieldsStmt s m) h

end Statements

end Container

end Narrowing
