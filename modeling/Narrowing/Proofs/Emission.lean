import Narrowing.Emit.Function
import Narrowing.Proofs.Check
import Narrowing.Proofs.Printable

/-!
# What is printed and what is not

Printing a tree without holes comes to an end, and remembers the first construct without a C counterpart.  `Meets` says
this of one step, for any construct that was remembered before; the steps of a statement are put together from those
of its parts.
-/

namespace Narrowing

/-! ### Constructs without a counterpart -/

/-- What part of a type has no C name. -/
def Ty.nameless? : Ty → Option Construct
  | .int | .bool | .void => none
  | .array t => t.nameless?
  | .nominal name => if (Kind.ofNominal? name).isSome then none else some (.type (.nominal name))
  | t => some (.type t)

/-- What keeps the variable in a slot from having a C type. -/
def Emitter.variableFlaw? (e : Emitter) (n : Slot) : Option Construct :=
  match e.decl.lookup? n with
  | none => none
  | some v =>
    match e.range? n v with
    | none => v.type.nameless?
    | some r => if (e.selector.selectFor r v.type).isSome then none else some (.noKind v.name r)

/-- The construct without a counterpart that a subtree is, its parts apart. -/
def Subtree.construct? (e : Emitter) : Subtree → Option Construct
  | .stmt (.decl n _) => e.variableFlaw? n
  | .stmt (.declAlias n) => e.variableFlaw? n
  | .stmt (.assign lhs rhs) =>
    if lhs.length ≤ 1 ∧ rhs.length = 1 then none else some (.assignment rhs.length lhs.length)
  | .stmt (.ret es) => if es.length ≤ 1 then none else some .returnOfMany
  | .expr (.convert t _) => t.nameless?
  | .expr (.lambda ..) => some .lambda
  | .expr (.quantifier ..) => some .quantifier
  | .expr (.is ..) => some .typeTest
  | _ => none

/-- Nothing under a debug statement is printed. -/
def Subtree.isShown : Subtree → Bool
  | .stmt (.debug _) => false
  | _ => true

/-! ### Steps of printing -/

/-- The step ends without a fault and remembers the construct, if there is one and none was remembered before. -/
def Meets {α : Type} (m : EmitM α) (c : Option Construct) : Prop := ∀ first, ∃ a, m.run first = .ok (a, first.or c)

namespace Meets

variable {α β : Type} {m : EmitM α} {c c' : Option Construct}

theorem pure (a : α) : Meets (Pure.pure a : EmitM α) none := fun first =>
  ⟨a, by rw [Option.or_none]; rfl⟩

theorem unsupported (c : Construct) : Meets (Narrowing.unsupported c) (some c) := by
  intro first
  refine ⟨(), ?_⟩
  cases first <;> rfl

theorem bind {k : α → EmitM β} (h : Meets m c) (hk : ∀ a, Meets (k a) c') : Meets (m >>= k) (c.or c') := by
  intro first
  obtain ⟨a, ha⟩ := h first
  obtain ⟨b, hb⟩ := hk a (first.or c)
  refine ⟨b, ?_⟩
  rw [StateT.run_bind, ha, ← Option.or_assoc]
  exact hb

/-- What follows a step that remembers nothing of its own. -/
theorem map {f : α → β} (h : Meets m c) : Meets (do return f (← m)) c := by
  have := h.bind fun a => Meets.pure (f a)
  rwa [Option.or_none] at this

/-- A construct without a counterpart hides what would come behind it. -/
theorem refuse (c : Construct) (a : α) (rest : Option Construct) :
    Meets (do Narrowing.unsupported c; return a) ((some c).or rest) := by
  have h := (Meets.unsupported c).bind fun _ => Meets.pure a
  exact h

/-- What is left out behind a spoilt statement would not have been remembered. -/
theorem unlessSpoilt (a : α) (h : Meets m c) : Meets (do if ← isSpoilt then return a else m) c := by
  intro first
  cases first with
  | none => exact h none
  | some x => exact ⟨a, rfl⟩

end Meets

/-! ### Types and variables -/

/-- The function has a variable in every slot that the subtrees mention. -/
def Emitter.Knows (e : Emitter) (nodes : List Subtree) : Prop :=
  ∀ node ∈ nodes, ∀ n, node.slot? = some n → ∃ v, e.decl.lookup? n = some v

/-- The first construct without a counterpart among some subtrees. -/
def Emitter.firstFlaw? (e : Emitter) (nodes : List Subtree) : Option Construct := nodes.findSome? (Subtree.construct? e)

namespace Emitter

variable {e : Emitter} {node : Subtree} {ns ns' : List Subtree} {n : Slot} {v : Variable}

theorem Knows.left (h : e.Knows (ns ++ ns')) : e.Knows ns := fun m hm => h m (List.mem_append_left ns' hm)

theorem Knows.right (h : e.Knows (ns ++ ns')) : e.Knows ns' := fun m hm => h m (List.mem_append_right ns hm)

theorem Knows.parts (h : e.Knows (node.before (fun _ => true) ns)) : e.Knows ns := fun m hm =>
  h m (List.mem_cons_of_mem node hm)

theorem Knows.slot (h : e.Knows (node :: ns)) (hn : node.slot? = some n) : ∃ v, e.decl.lookup? n = some v :=
  h node List.mem_cons_self n hn

theorem firstFlaw?_append (ns ns' : List Subtree) :
    e.firstFlaw? (ns ++ ns') = (e.firstFlaw? ns).or (e.firstFlaw? ns') := List.findSome?_append

theorem firstFlaw?_before (hnode : node.isShown = true) (ns : List Subtree) :
    e.firstFlaw? (node.before Subtree.isShown ns) = (node.construct? e).or (e.firstFlaw? ns) := by
  simp only [firstFlaw?, Subtree.before, hnode, if_true, List.findSome?_cons]
  cases node.construct? e <;> rfl

theorem meets_typeName : (t : Ty) → Meets (e.typeName t) t.nameless?
  | .int => .pure _
  | .bool => .pure _
  | .void => .pure _
  | .array t => by
    rw [typeName, Ty.nameless?]
    exact (meets_typeName t).map
  | .nominal name => by
    rw [typeName, Ty.nameless?]
    cases Kind.ofNominal? name with
    | some k => exact .pure _
    | none => exact .refuse _ _ none
  | .null => .refuse _ _ none
  | .ref t => .refuse _ _ none
  | .record fs => .refuse _ _ none

theorem meets_variableAt (h : e.decl.lookup? n = some v) : Meets (e.variableAt n) none := by
  unfold variableAt
  rw [h]
  exact .pure v

theorem meets_variableName (h : e.decl.lookup? n = some v) : Meets (e.variableName n) none := (meets_variableAt h).map

theorem meets_variableType (h : e.decl.lookup? n = some v) : Meets (e.variableType n) (e.variableFlaw? n) := by
  have hread : e.variableAt n = pure v := by rw [variableAt, h]
  simp only [variableType, variableFlaw?, hread, h, pure_bind]
  cases e.range? n v with
  | none => exact meets_typeName v.type
  | some r =>
    dsimp only
    cases e.selector.selectFor r v.type with
    | some k => exact .pure _
    | none => exact .refuse _ _ none

end Emitter

/-! ### Expressions -/

namespace Expr

open Emitter

variable {e : Emitter}

mutual

/-- An expression without holes is printed, and remembers the first construct in it. -/
theorem meets_emit : (x : Expr) → x.isPrintable = true → e.Knows (x.subtrees fun _ => true) →
    Meets (x.emit e) (e.firstFlaw? (x.subtrees Subtree.isShown))
  | .const c, _, _ => .pure _
  | .var n, _, hk => by
    obtain ⟨v, hv⟩ := hk.slot rfl
    exact meets_variableName hv
  | .unary op x, h, hk => by
    obtain ⟨hop, hx⟩ := Bool.and_eq_true_iff.1 h
    have hpart := meets_emit x hx hk.parts
    rw [emit, if_pos hop, subtrees, firstFlaw?_before rfl]
    exact hpart.map
  | .binary op x y, h, hk => by
    simp only [isPrintable, Bool.and_eq_true, Bool.not_eq_true'] at h
    have hleft := meets_emit x h.1.2 hk.parts.left
    have hright := meets_emit y h.2 hk.parts.right
    rw [emit, h.1.1, subtrees, firstFlaw?_before rfl, firstFlaw?_append]
    exact hleft.bind fun _ => hright.map
  | .convert t x, h, hk => by
    have hpart := meets_emit x h hk.parts
    rw [emit, subtrees, firstFlaw?_before rfl]
    exact (meets_typeName t).bind fun _ => hpart.map
  | .deref x, h, hk => by
    have hpart := meets_emit x h hk.parts
    rw [emit, subtrees, firstFlaw?_before rfl]
    exact hpart.map
  | .field x name, h, hk => by
    have hpart := meets_emit x h hk.parts
    rw [emit, subtrees, firstFlaw?_before rfl]
    exact hpart.map
  | .length x, h, hk => by
    have hpart := meets_emit x h hk.parts
    rw [emit, subtrees, firstFlaw?_before rfl]
    exact hpart.map
  | .index x i, h, hk => by
    obtain ⟨hx, hy⟩ := Bool.and_eq_true_iff.1 h
    have hleft := meets_emit x hx hk.parts.left
    have hright := meets_emit i hy hk.parts.right
    rw [emit, subtrees, firstFlaw?_before rfl, firstFlaw?_append]
    exact hleft.bind fun _ => hright.map
  | .array es, h, hk => by
    have hparts := meets_emitAll es h hk.parts
    rw [emit, subtrees, firstFlaw?_before rfl]
    exact hparts.map
  | .fill v size, h, hk => by
    obtain ⟨hx, hy⟩ := Bool.and_eq_true_iff.1 h
    have hleft := meets_emit v hx hk.parts.left
    have hright := meets_emit size hy hk.parts.right
    rw [emit, subtrees, firstFlaw?_before rfl, firstFlaw?_append]
    exact hleft.bind fun _ => hright.map
  | .record fs, h, hk => by
    have hparts := meets_emitFields fs h hk.parts
    rw [emit, subtrees, firstFlaw?_before rfl]
    exact hparts.map
  | .invoke name es, h, hk => by
    have hparts := meets_emitAll es h hk.parts
    rw [emit, subtrees, firstFlaw?_before rfl]
    exact hparts.map
  | .indirect fn es, h, hk => by
    obtain ⟨hfn, hes⟩ := Bool.and_eq_true_iff.1 h
    have hleft := meets_emit fn hfn hk.parts.left
    have hright := meets_emitAll es hes hk.parts.right
    rw [emit, subtrees, firstFlaw?_before rfl, firstFlaw?_append]
    exact hleft.bind fun _ => hright.map
  | .new x, h, hk => by
    have hpart := meets_emit x h hk.parts
    rw [emit, subtrees, firstFlaw?_before rfl]
    exact hpart.map
  | .lambda ps body, _, _ => by
    rw [emit, subtrees, firstFlaw?_before rfl]
    exact .refuse _ _ _
  | .quantifier u n low high body, _, _ => by
    rw [emit, subtrees, firstFlaw?_before rfl]
    exact .refuse _ _ _
  | .is x t, _, _ => by
    rw [emit, subtrees, firstFlaw?_before rfl]
    exact .refuse _ _ _
  | .hole, h, _ => nomatch h

theorem meets_emitAll : (xs : List Expr) → allPrintable xs = true → e.Knows (exprsSubtrees (fun _ => true) xs) →
    Meets (emitAll e xs) (e.firstFlaw? (exprsSubtrees Subtree.isShown xs))
  | [], _, _ => .pure _
  | x :: xs, h, hk => by
    obtain ⟨hx, hxs⟩ := Bool.and_eq_true_iff.1 h
    have hfirst := meets_emit x hx hk.left
    have hrest := meets_emitAll xs hxs hk.right
    rw [emitAll, exprsSubtrees, firstFlaw?_append]
    exact hfirst.bind fun _ => hrest.map

theorem meets_emitFields : (fs : List (String × Expr)) → fieldsPrintable fs = true →
    e.Knows (fieldsSubtrees (fun _ => true) fs) →
    Meets (emitFields e fs) (e.firstFlaw? (fieldsSubtrees Subtree.isShown fs))
  | [], _, _ => .pure _
  | (name, x) :: fs, h, hk => by
    obtain ⟨hx, hfs⟩ := Bool.and_eq_true_iff.1 h
    have hfirst := meets_emit x hx hk.left
    have hrest := meets_emitFields fs hfs hk.right
    rw [emitFields, fieldsSubtrees, firstFlaw?_append]
    exact hfirst.bind fun _ => hrest.map

end

end Expr

/-! ### Statements -/

namespace Stmt

open Emitter

variable {e : Emitter}

theorem meets_emitAssign (depth : Nat) {lhs rhs : List Expr} (h : (Stmt.assign lhs rhs).isPrintable = true)
    (hk : e.Knows (Stmt.subtrees (fun _ => true) (.assign lhs rhs))) :
    Meets (emitAssign e depth lhs rhs) (e.firstFlaw? (Stmt.subtrees Subtree.isShown (.assign lhs rhs))) := by
  rw [subtrees, firstFlaw?_before rfl, firstFlaw?_append]
  by_cases hshape : lhs.length ≤ 1 ∧ rhs.length = 1
  · obtain ⟨y, rfl⟩ := List.length_eq_one_iff.1 hshape.2
    have hnone : (Subtree.stmt (.assign lhs [y])).construct? e = none := if_pos hshape
    rw [hnone, exprsSubtrees, exprsSubtrees, List.append_nil]
    cases lhs with
    | nil => exact (y.meets_emit h hk.parts.right.left).map
    | cons x lhs =>
      cases lhs with
      | nil =>
        obtain ⟨hx, hy⟩ := Bool.and_eq_true_iff.1 h
        rw [exprsSubtrees, exprsSubtrees, List.append_nil]
        have hleft := x.meets_emit hx hk.parts.left.left
        exact hleft.bind fun _ => (y.meets_emit hy hk.parts.right.left).map
      | cons x' lhs => exact absurd hshape.1 (by simp)
  · have hrefuse : emitAssign e depth lhs rhs =
        (do unsupported (.assignment rhs.length lhs.length); return []) := by
      unfold emitAssign
      split
      · exact absurd ⟨by simp, rfl⟩ hshape
      · exact absurd ⟨by simp, rfl⟩ hshape
      · rfl
    have hsome : (Subtree.stmt (.assign lhs rhs)).construct? e = some (.assignment rhs.length lhs.length) := if_neg hshape
    rw [hrefuse, hsome]
    exact .refuse _ _ _

theorem meets_emitDecl (n : Slot) (init : Expr) (depth : Nat) (h : (Stmt.decl n init).isPrintable = true)
    (hk : e.Knows (Stmt.subtrees (fun _ => true) (.decl n init))) :
    Meets (Stmt.emit e depth (.decl n init)) (e.firstFlaw? (Stmt.subtrees Subtree.isShown (.decl n init))) := by
  obtain ⟨v, hv⟩ := hk.slot rfl
  rw [emit, subtrees, firstFlaw?_before rfl]
  refine (meets_variableType hv).bind fun type => (meets_variableName hv).bind fun name => ?_
  split
  · exact .pure _
  · next hinit =>
    have hprint : init.isPrintable = true := by
      rw [isPrintable] at h
      · exact h
      · exact hinit
    exact (init.meets_emit hprint hk.parts).map

mutual

/-- A statement without holes is printed, and remembers the first construct in it. -/
theorem meets_emit : (s : Stmt) → (depth : Nat) → s.isPrintable = true → e.Knows (s.subtrees fun _ => true) →
    Meets (s.emit e depth) (e.firstFlaw? (s.subtrees Subtree.isShown))
  | .block body, depth, h, hk => by
    have hbody := meets_emitBlock body (depth + 1) h hk.parts
    rw [emit, subtrees, firstFlaw?_before rfl]
    exact hbody.map
  | .decl n init, depth, h, hk => meets_emitDecl n init depth h hk
  | .declAlias n, depth, _, hk => by
    obtain ⟨v, hv⟩ := hk.slot rfl
    have hflaw : e.firstFlaw? [.stmt (.declAlias n)] = (e.variableFlaw? n).or none := firstFlaw?_before rfl []
    rw [emit, subtrees, hflaw]
    exact (meets_variableType hv).bind fun _ => (meets_variableName hv).map
  | .assign lhs rhs, depth, h, hk => meets_emitAssign depth h hk
  | .assert x, depth, h, hk => by
    have hx := x.meets_emit h hk.parts
    rw [emit, subtrees, firstFlaw?_before rfl]
    exact hx.map
  | .assume x, depth, h, hk => by
    have hx := x.meets_emit h hk.parts
    rw [emit, subtrees, firstFlaw?_before rfl]
    exact hx.map
  | .break, _, _, _ => .pure _
  | .continue, _, _, _ => .pure _
  | .debug _, _, _, _ => .pure _
  | .doWhile body x, depth, h, hk => by
    obtain ⟨hbody, hx⟩ := Bool.and_eq_true_iff.1 h
    have hbody := meets_emitBlock body (depth + 1) hbody hk.parts.left
    have hx := x.meets_emit hx hk.parts.right
    rw [emit, subtrees, firstFlaw?_before rfl, firstFlaw?_append]
    exact hbody.bind fun _ => hx.map
  | .fail, _, _, _ => .pure _
  | .ifThen x yes, depth, h, hk => by
    obtain ⟨hx, hyes⟩ := Bool.and_eq_true_iff.1 h
    have hcond := x.meets_emit hx hk.parts.left
    have hbody := meets_emitBlock yes (depth + 1) hyes hk.parts.right
    rw [emit, subtrees, firstFlaw?_before rfl, firstFlaw?_append]
    exact hcond.bind fun _ => hbody.map
  | .ifElse x yes no, depth, h, hk => by
    simp only [isPrintable, Bool.and_eq_true] at h
    have hcond := x.meets_emit h.1.1 hk.parts.left.left
    have hyes := meets_emitBlock yes (depth + 1) h.1.2 hk.parts.left.right
    have hno := meets_emitBlock no (depth + 1) h.2 hk.parts.right
    rw [emit, subtrees, firstFlaw?_before rfl, firstFlaw?_append, firstFlaw?_append, Option.or_assoc]
    exact hcond.bind fun _ => hyes.bind fun _ => hno.map
  | .call x, depth, h, hk => by
    obtain ⟨hcall, hx⟩ := Bool.and_eq_true_iff.1 h
    have hx := x.meets_emit hx hk.parts
    rw [emit, if_pos hcall, subtrees, firstFlaw?_before rfl]
    exact hx.map
  | .named name body, depth, h, hk => by
    have hbody := meets_emitBlock body (depth + 1) h hk.parts
    rw [emit, subtrees, firstFlaw?_before rfl]
    exact hbody.map
  | .while x body, depth, h, hk => by
    obtain ⟨hx, hbody⟩ := Bool.and_eq_true_iff.1 h
    have hcond := x.meets_emit hx hk.parts.left
    have hbody := meets_emitBlock body (depth + 1) hbody hk.parts.right
    rw [emit, subtrees, firstFlaw?_before rfl, firstFlaw?_append]
    exact hcond.bind fun _ => hbody.map
  | .ret [], _, _, _ => .pure _
  | .ret [x], depth, h, hk => by
    have hx := x.meets_emit h hk.parts.left
    rw [emit, subtrees, firstFlaw?_before rfl, exprsSubtrees, exprsSubtrees, List.append_nil]
    exact hx.map
  | .ret (x :: y :: es), depth, _, _ => by
    have hsome : (Subtree.stmt (.ret (x :: y :: es))).construct? e = some .returnOfMany := by
      simp [Subtree.construct?]
    rw [emit, subtrees, firstFlaw?_before rfl, hsome]
    exact .refuse _ _ _
  | .skip, _, _, _ => .pure _
  | .switch x cs, depth, h, hk => by
    obtain ⟨hx, hcs⟩ := Bool.and_eq_true_iff.1 h
    have htag := x.meets_emit hx hk.parts.left
    have hclauses := meets_emitClauses cs (depth + 1) hcs hk.parts.right
    rw [emit, subtrees, firstFlaw?_before rfl, firstFlaw?_append]
    exact htag.bind fun _ => hclauses.map
  | .hole, _, h, _ => nomatch h

/-- So is a sequence of statements, although it ends behind a spoilt one. -/
theorem meets_emitBlock : (ss : List Stmt) → (depth : Nat) → stmtsPrintable ss = true →
    e.Knows (stmtsSubtrees (fun _ => true) ss) →
    Meets (emitBlock e depth ss) (e.firstFlaw? (stmtsSubtrees Subtree.isShown ss))
  | [], _, _, _ => .pure _
  | s :: ss, depth, h, hk => by
    obtain ⟨hs, hss⟩ := Bool.and_eq_true_iff.1 h
    have hfirst := meets_emit s depth hs hk.left
    have hrest := meets_emitBlock ss depth hss hk.right
    rw [emitBlock, stmtsSubtrees, firstFlaw?_append]
    exact hfirst.bind fun ls => .unlessSpoilt ls hrest.map

theorem meets_emitClauses : (cs : List (List Constant × List Stmt)) → (depth : Nat) → clausesPrintable cs = true →
    e.Knows (clausesSubtrees (fun _ => true) cs) →
    Meets (emitClauses e depth cs) (e.firstFlaw? (clausesSubtrees Subtree.isShown cs))
  | [], _, _, _ => .pure _
  | (values, body) :: cs, depth, h, hk => by
    obtain ⟨hbody, hcs⟩ := Bool.and_eq_true_iff.1 h
    have hfirst := meets_emitBlock body (depth + 1) hbody hk.left
    have hrest := meets_emitClauses cs depth hcs hk.right
    rw [emitClauses, clausesSubtrees, firstFlaw?_append]
    exact hfirst.bind fun _ => hrest.map

end

end Stmt

/-! ### Functions -/

namespace Emitter

/-- What keeps the function from having a C return type. -/
def returnFlaw? (e : Emitter) : Option Construct :=
  match e.decl.returns with
  | [] => none
  | [t] => t.nameless?
  | _ => some .multipleReturns

/-- The constructs without a C counterpart in the order they are printed: of the return type, of the parameters, and of
the statements and expressions of the body that are shown. -/
def constructs (e : Emitter) : List Construct :=
  e.returnFlaw?.toList ++ (List.range e.decl.params.length).filterMap (fun n : Nat => e.variableFlaw? n) ++
    (stmtsSubtrees Subtree.isShown (e.decl.body.getD [])).filterMap (Subtree.construct? e)

variable {e : Emitter}

theorem head?_constructs :
    e.constructs.head? = (e.returnFlaw?.or ((List.range e.decl.params.length).findSome? fun n : Nat => e.variableFlaw? n)).or
      (e.firstFlaw? (stmtsSubtrees Subtree.isShown (e.decl.body.getD []))) := by
  simp only [constructs, firstFlaw?, List.head?_append, List.head?_filterMap, Option.head?_toList]

theorem meets_returnType : Meets e.returnType e.returnFlaw? := by
  unfold returnType returnFlaw?
  cases e.decl.returns with
  | nil => exact .pure _
  | cons t ts =>
    cases ts with
    | nil => exact meets_typeName t
    | cons t' ts => exact .refuse _ _ none

theorem meets_parameters (n : Nat) (vs : List Variable)
    (h : ∀ i : Nat, n ≤ i → i < n + vs.length → ∃ v, e.decl.lookup? i = some v) :
    Meets (e.parameters n vs) ((List.range' n vs.length).findSome? fun i : Nat => e.variableFlaw? i) := by
  induction vs generalizing n with
  | nil => exact .pure _
  | cons v vs ih =>
    obtain ⟨v', hv'⟩ := h n (Nat.le_refl n) (by simp)
    have hrest := ih (n + 1) fun i hi hlt => h i (by omega) (by simp only [List.length_cons]; omega)
    have hfind : ((List.range' n (v :: vs).length).findSome? fun i : Nat => e.variableFlaw? i) =
        (e.variableFlaw? n).or ((List.range' (n + 1) vs.length).findSome? fun i : Nat => e.variableFlaw? i) := by
      rw [List.length_cons, List.range'_succ, List.findSome?_cons]
      cases e.variableFlaw? n <;> rfl
    rw [parameters, hfind]
    exact (meets_variableType hv').bind fun _ => hrest.map

theorem exists_lookup? {f : FunctionDecl} {n : Int} (h : 0 ≤ n ∧ n < f.numSlots) : ∃ v, f.lookup? n = some v := by
  have hlt : n.toNat < f.vars.length := (Int.toNat_lt h.1).2 h.2
  refine ⟨f.vars[n.toNat], ?_⟩
  rw [FunctionDecl.lookup?, variableAt?, if_neg (Int.not_lt.2 h.1), List.getElem?_eq_getElem hlt]

/-- A function whose body has no holes is printed, and remembers the first of its constructs. -/
theorem meets_emitFunction (layout : Layout) (hbody : stmtsPrintable (e.decl.body.getD []) = true)
    (hk : e.Knows (stmtsSubtrees (fun _ => true) (e.decl.body.getD []))) :
    Meets (e.emitFunction layout) e.constructs.head? := by
  have hparams : ∀ i : Nat, 0 ≤ i → i < 0 + e.decl.params.length → ∃ v, e.decl.lookup? i = some v := by
    intro i _ hi
    refine exists_lookup? ⟨Int.natCast_nonneg i, ?_⟩
    simp only [FunctionDecl.numSlots, FunctionDecl.vars, List.length_append]
    omega
  have hhead := meets_parameters 0 e.decl.params hparams
  rw [head?_constructs, Option.or_assoc, List.range_eq_range']
  refine meets_returnType.bind fun _ => hhead.bind fun _ => ?_
  cases hdecl : e.decl.body with
  | none => exact .pure _
  | some body =>
    rw [hdecl] at hbody hk
    exact (Stmt.meets_emitBlock body 1 hbody hk).map

theorem constructs_eq_nil :
    e.constructs = [] ↔ e.returnFlaw? = none ∧ (∀ n : Nat, n < e.decl.params.length → e.variableFlaw? n = none) ∧
      ∀ node ∈ stmtsSubtrees Subtree.isShown (e.decl.body.getD []), node.construct? e = none := by
  simp only [constructs, List.append_eq_nil_iff, Option.toList_eq_nil_iff, List.filterMap_eq_nil_iff, List.mem_range,
    and_assoc]

end Emitter

theorem knows_of_check {file : File} {f : FunctionDecl} (hcheck : file.check = .ok ())
    (hf : Decl.function f ∈ file.decls) (result : Option AnalysisResult) (selector : Selector) :
    (Emitter.mk f result selector).Knows (stmtsSubtrees (fun _ => true) (f.body.getD [])) := by
  obtain ⟨-, hrest⟩ := orElse_eq_none.1 (File.flaw?_of_check hcheck _ hf)
  obtain ⟨-, htree⟩ := orElse_eq_none.1 hrest
  intro node hnode n hn
  exact Emitter.exists_lookup? (treeFlaw?_eq_none.1 htree node hnode n hn)

/-- What becomes of a function that is printed without a fault. -/
theorem emit_of_meets {f : FunctionDecl} {result : Option AnalysisResult} {selector : Selector} {layout : Layout}
    {c : Option Construct} (h : Meets (Emitter.emitFunction ⟨f, result, selector⟩ layout.filled) c) :
    (∃ text, c = none ∧ f.emit result selector layout = .ok text) ∨
      ∃ c', c = some c' ∧ f.emit result selector layout = .error (.unsupported ⟨f.name, c'⟩) := by
  obtain ⟨text, hrun⟩ := h none
  rw [Option.none_or] at hrun
  cases c with
  | none => exact .inl ⟨text, rfl, by rw [FunctionDecl.emit, hrun]⟩
  | some c' => exact .inr ⟨c', rfl, by rw [FunctionDecl.emit, hrun]⟩

/-- **Printing fails exactly on what has no C counterpart.**  A checked function whose body has no holes is printed
without a fault.  It has a text exactly if nothing in it is without a C counterpart, and otherwise the error names what
comes first.  Bodies from containers have no holes. -/
theorem emission_fails_exactly_on_constructs {file : File} {f : FunctionDecl} (hcheck : file.check = .ok ())
    (hf : Decl.function f ∈ file.decls) (hbody : stmtsPrintable (f.body.getD []) = true)
    (result : Option AnalysisResult) (selector : Selector) (layout : Layout) :
    (∀ x, f.emit result selector layout ≠ .error (.fault x)) ∧
    ((∃ text, f.emit result selector layout = .ok text) ↔
      (Emitter.mk f result selector).returnFlaw? = none ∧
      (∀ n : Nat, n < f.params.length → (Emitter.mk f result selector).variableFlaw? n = none) ∧
      ∀ node ∈ stmtsSubtrees Subtree.isShown (f.body.getD []), node.construct? ⟨f, result, selector⟩ = none) ∧
    (∀ u, f.emit result selector layout = .error (.unsupported u) ↔
      u.unit = f.name ∧ (Emitter.mk f result selector).constructs.head? = some u.construct) ∧
    ∀ s n body, Container.statements s n = .ok body → stmtsPrintable body = true := by
  have hmeets := Emitter.meets_emitFunction layout.filled hbody (knows_of_check hcheck hf result selector)
  have hnil := Emitter.constructs_eq_nil (e := ⟨f, result, selector⟩)
  refine ⟨?_, ?_, ?_, fun s n body => Container.stmtsPrintable_of_container⟩
  · intro x hx
    rcases emit_of_meets hmeets with ⟨text, -, htext⟩ | ⟨c, -, hc⟩
    · cases htext.symm.trans hx
    · cases hc.symm.trans hx
  · rw [← hnil, ← List.head?_eq_none_iff]
    rcases emit_of_meets hmeets with ⟨text, hnone, htext⟩ | ⟨c, hsome, hc⟩
    · exact iff_of_true ⟨text, htext⟩ hnone
    · refine iff_of_false ?_ ?_
      · rintro ⟨text, htext⟩
        cases hc.symm.trans htext
      · rw [hsome]
        exact Option.some_ne_none c
  · rintro ⟨unit, c'⟩
    rcases emit_of_meets hmeets with ⟨text, hnone, htext⟩ | ⟨c, hsome, hc⟩
    · rw [htext, hnone]
      simp
    · rw [hc, hsome]
      simp [eq_comm]

/-- A function that shows what is printed first: a debug statement hides what is in it, and the reference comes before
the lambda. -/
def probe : FunctionDecl where
  name := "probe"
  params := [⟨"x", .nominal "u8"⟩]
  locals := [⟨"y", .ref .int⟩]
  body := some [.debug (.lambda [] .hole), .declAlias 1, .assert (.lambda [] .hole)]

theorem emission_fails_exactly_on_constructs_probe :
    File.check ⟨"probes", [.function probe]⟩ = .ok () ∧ stmtsPrintable (probe.body.getD []) = true ∧
    probe.emit none .default {} = .error (.unsupported ⟨"probe", .type (.ref .int)⟩) := by
  have hcheck : File.check ⟨"probes", [.function probe]⟩ = .ok () := rfl
  have hbody : stmtsPrintable (probe.body.getD []) = true := rfl
  obtain ⟨-, -, herror, -⟩ := emission_fails_exactly_on_constructs hcheck List.mem_cons_self hbody none .default {}
  exact ⟨hcheck, hbody, (herror ⟨"probe", .type (.ref .int)⟩).2 ⟨rfl, rfl⟩⟩

end Narrowing
