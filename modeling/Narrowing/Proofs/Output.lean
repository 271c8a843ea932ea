import Narrowing.Emit.Stmt

/-!
# What printing yields

A step of printing yields a result if it ends without a fault and remembers no construct.  A construct that is
remembered stays so (`Remembers`), so if two steps in a row yield a result then each of them does
(`yields_bind_iff`), and what is printed can be taken apart like the tree it was printed from.
-/

namespace Narrowing

/-! ### Steps -/

section Steps

variable {α β : Type}

/-- The step ends without a fault and remembers nothing. -/
def Yields (m : EmitM α) (a : α) : Prop := m.run none = .ok (a, none)

/-- A construct that is remembered before the step is remembered behind it. -/
def Remembers (m : EmitM α) : Prop := ∀ c a first, m.run (some c) = .ok (a, first) → first = some c

variable {m : EmitM α} {k : α → EmitM β} {a a' : α} {b : β}

/-- Two steps run one after the other, from what is remembered between them. -/
theorem run_bind_eq_ok {first last : Option Construct} :
    (m >>= k).run first = .ok (b, last) ↔ ∃ a middle, m.run first = .ok (a, middle) ∧ (k a).run middle = .ok (b, last) := by
  rw [StateT.run_bind]
  cases hm : m.run first with
  | error f =>
    constructor
    · intro h
      cases h
    · rintro ⟨a, middle, h, -⟩
      cases h
  | ok p =>
    constructor
    · intro h
      exact ⟨p.1, p.2, rfl, h⟩
    · rintro ⟨a, middle, h, hk⟩
      cases h
      exact hk

namespace Remembers

theorem pure (a : α) : Remembers (Pure.pure a : EmitM α) := by
  intro c a' first h
  cases h
  rfl

theorem throw (f : Fault) : Remembers (MonadExcept.throw f : EmitM α) := by
  intro c a first h
  cases h

theorem unsupported (c : Construct) : Remembers (Narrowing.unsupported c) := by
  intro c' a first h
  cases h
  rfl

/-- What the first step remembers, the second does not lose. -/
theorem bind (h : Remembers m) (hk : ∀ a, Remembers (k a)) : Remembers (m >>= k) := by
  intro c b first hrun
  obtain ⟨a, middle, hm, hkrun⟩ := run_bind_eq_ok.1 hrun
  obtain rfl := h c a middle hm
  exact hk a c b first hkrun

theorem map (h : Remembers m) (f : α → β) : Remembers (do return f (← m)) := h.bind fun a => pure (f a)

theorem refuse (c : Construct) (a : α) : Remembers (do Narrowing.unsupported c; return a) := (unsupported c).map fun _ => a

/-- Behind a remembered construct the step is left out. -/
theorem unlessSpoilt (a : α) (m : EmitM α) : Remembers (do if ← isSpoilt then return a else m) := by
  intro c a' first hrun
  cases hrun
  rfl

end Remembers

theorem yields_pure_iff : Yields (pure a : EmitM α) a' ↔ a' = a := by
  constructor
  · intro h
    cases h
    rfl
  · rintro rfl
    rfl

theorem Yields.bind (h : Yields m a) (hk : Yields (k a) b) : Yields (m >>= k) b := run_bind_eq_ok.2 ⟨a, none, h, hk⟩

theorem Yields.map (h : Yields m a) (f : α → β) : Yields (f <$> m) (f a) := by
  rw [Yields, StateT.run_map, h]
  rfl

/-- Two steps yield a result if each of them does. -/
theorem yields_bind_iff (hk : ∀ a, Remembers (k a)) : Yields (m >>= k) b ↔ ∃ a, Yields m a ∧ Yields (k a) b := by
  constructor
  · intro h
    obtain ⟨a, middle, hm, hkrun⟩ := run_bind_eq_ok.1 h
    cases middle with
    | none => exact ⟨a, hm, hkrun⟩
    | some c =>
      -- what the first step remembers is not forgotten by the second
      cases hk a c b none hkrun
  · rintro ⟨a, hm, hkrun⟩
    exact hm.bind hkrun

/-- A step with a function behind it yields a result if the step does. -/
theorem yields_map_iff {f : α → β} : Yields (do return f (← m)) b ↔ ∃ a, Yields m a ∧ b = f a := by
  rw [yields_bind_iff fun a => .pure (f a)]
  simp only [yields_pure_iff]

theorem not_yields_throw (f : Fault) : ¬ Yields (MonadExcept.throw f : EmitM α) a := by
  intro h
  cases h

/-- What has no counterpart yields nothing. -/
theorem not_yields_refuse (c : Construct) : ¬ Yields (do unsupported c; return a : EmitM α) a' := by
  intro h
  cases h

/-- What is not left out behind a spoilt statement. -/
theorem yields_unlessSpoilt_iff : Yields (do if ← isSpoilt then return a' else m) a ↔ Yields m a := Iff.rfl

end Steps

/-! ### Names of types -/

/-- The C names of the types that have no parts. -/
def typeWords : List String := "bool" :: "void" :: Kind.all.map Kind.name

/-- The C name of a type: a word, or that of an array of such a type. -/
inductive IsTypeName : String → Prop
  | word {w : String} (h : w ∈ typeWords) : IsTypeName w
  | array {name : String} (h : IsTypeName name) : IsTypeName ("arr_t(" ++ name ++ ")")

theorem IsTypeName.kind (k : Kind) : IsTypeName k.name := by
  refine .word (List.mem_cons_of_mem _ (List.mem_cons_of_mem _ (List.mem_map.2 ⟨k, ?_, rfl⟩)))
  obtain ⟨w, signed⟩ := k
  cases w <;> cases signed <;> decide

/-- The C name of a type that has one. -/
def Ty.cName? (s : Selector) : Ty → Option String
  | .int => some s.fallback.name
  | .bool => some "bool"
  | .void => some "void"
  | .array t => (t.cName? s).map fun name => "arr_t(" ++ name ++ ")"
  | .nominal name => (Kind.ofNominal? name).map Kind.name
  | _ => none

theorem Ty.isTypeName_of_cName? {s : Selector} : {t : Ty} → {name : String} → t.cName? s = some name → IsTypeName name
  | .int, _, h => by cases h; exact .kind _
  | .bool, _, h => by cases h; exact .word (by decide)
  | .void, _, h => by cases h; exact .word (by decide)
  | .array t, _, h => by
    obtain ⟨name, hname, rfl⟩ := Option.map_eq_some_iff.1 h
    exact .array (isTypeName_of_cName? hname)
  | .nominal _, _, h => by
    obtain ⟨k, -, rfl⟩ := Option.map_eq_some_iff.1 h
    exact .kind k
  | .null, _, h => nomatch h
  | .ref _, _, h => nomatch h
  | .record _, _, h => nomatch h

namespace Emitter

variable {e : Emitter} {n : Slot} {v : Variable} {name : String}

/-- A type is named exactly if it has a C name. -/
theorem yields_typeName_iff : {t : Ty} → {name : String} → (Yields (e.typeName t) name ↔ t.cName? e.selector = some name)
  | .int, _ => by rw [typeName, yields_pure_iff, Ty.cName?, Option.some.injEq, eq_comm]
  | .bool, _ => by rw [typeName, yields_pure_iff, Ty.cName?, Option.some.injEq, eq_comm]
  | .void, _ => by rw [typeName, yields_pure_iff, Ty.cName?, Option.some.injEq, eq_comm]
  | .array t, name => by
    rw [typeName, yields_map_iff, Ty.cName?, Option.map_eq_some_iff]
    simp only [yields_typeName_iff (t := t), eq_comm]
  | .nominal word, _ => by
    rw [typeName, Ty.cName?]
    cases Kind.ofNominal? word with
    | some k => exact yields_pure_iff.trans (by simp [eq_comm])
    | none => exact iff_of_false (not_yields_refuse _) (by simp)
  | .null, _ => iff_of_false (not_yields_refuse _) nofun
  | .ref _, _ => iff_of_false (not_yields_refuse _) nofun
  | .record _, _ => iff_of_false (not_yields_refuse _) nofun

/-- A variable is named as it is declared. -/
theorem yields_variableName_iff : Yields (e.variableName n) name ↔ ∃ v, e.decl.lookup? n = some v ∧ name = v.name := by
  unfold variableName variableAt
  rw [yields_map_iff]
  cases e.decl.lookup? n with
  | none =>
    refine iff_of_false ?_ (by simp)
    rintro ⟨v, hv, -⟩
    exact not_yields_throw _ hv
  | some v => simp [yields_pure_iff]

theorem remembers_typeName : (t : Ty) → Remembers (e.typeName t)
  | .int => .pure _
  | .bool => .pure _
  | .void => .pure _
  | .array t => by
    rw [typeName]
    exact (remembers_typeName t).map _
  | .nominal name => by
    rw [typeName]
    cases Kind.ofNominal? name with
    | some k => exact .pure _
    | none => exact .refuse _ _
  | .null => .refuse _ _
  | .ref _ => .refuse _ _
  | .record _ => .refuse _ _

theorem remembers_variableAt (n : Slot) : Remembers (e.variableAt n) := by
  unfold variableAt
  split
  · exact .pure _
  · exact .throw _

theorem remembers_variableName (n : Slot) : Remembers (e.variableName n) := (remembers_variableAt n).map _

theorem remembers_variableType (n : Slot) : Remembers (e.variableType n) := by
  unfold variableType
  refine (remembers_variableAt n).bind fun v => ?_
  split
  · exact remembers_typeName v.type
  · split
    · exact .pure _
    · exact .refuse _ _

/-- The C type of a variable is that of its declaration or a kind. -/
theorem isTypeName_of_variableType {type : String} (h : Yields (e.variableType n) type) : IsTypeName type := by
  unfold variableType at h
  rw [yields_bind_iff] at h
  · obtain ⟨v, -, h⟩ := h
    split at h
    · exact Ty.isTypeName_of_cName? (yields_typeName_iff.1 h)
    · split at h
      · rw [yields_pure_iff.1 h]
        exact .kind _
      · exact absurd h (not_yields_refuse _)
  · intro v
    split
    · exact remembers_typeName v.type
    · split
      · exact .pure _
      · exact .refuse _ _

end Emitter

/-! ### Trees -/

namespace Expr

variable {e : Emitter}

mutual

/-- No expression makes a remembered construct forgotten. -/
theorem remembers_emit : (x : Expr) → Remembers (x.emit e)
  | .const _ => by rw [emit]; exact .pure _
  | .var n => by rw [emit]; exact Emitter.remembers_variableName n
  | .unary op x => by
    rw [emit]
    split
    · exact (remembers_emit x).map _
    · exact .throw _
  | .binary op x y => by
    rw [emit]
    split
    · exact .throw _
    · exact (remembers_emit x).bind fun _ => (remembers_emit y).map _
  | .convert t x => by rw [emit]; exact (Emitter.remembers_typeName t).bind fun _ => (remembers_emit x).map _
  | .deref x => by rw [emit]; exact (remembers_emit x).map _
  | .field x _ => by rw [emit]; exact (remembers_emit x).map _
  | .length x => by rw [emit]; exact (remembers_emit x).map _
  | .index x i => by rw [emit]; exact (remembers_emit x).bind fun _ => (remembers_emit i).map _
  | .array xs => by rw [emit]; exact (remembers_emitAll xs).map _
  | .fill x n => by rw [emit]; exact (remembers_emit x).bind fun _ => (remembers_emit n).map _
  | .record fs => by rw [emit]; exact (remembers_emitFields fs).map _
  | .invoke _ xs => by rw [emit]; exact (remembers_emitAll xs).map _
  | .indirect fn xs => by rw [emit]; exact (remembers_emit fn).bind fun _ => (remembers_emitAll xs).map _
  | .new x => by rw [emit]; exact (remembers_emit x).map _
  | .lambda .. => by rw [emit]; exact .refuse _ _
  | .quantifier .. => by rw [emit]; exact .refuse _ _
  | .is .. => by rw [emit]; exact .refuse _ _
  | .hole => by rw [emit]; exact .throw _

theorem remembers_emitAll : (xs : List Expr) → Remembers (emitAll e xs)
  | [] => by rw [emitAll]; exact .pure _
  | x :: xs => by rw [emitAll]; exact (remembers_emit x).bind fun _ => (remembers_emitAll xs).map _

theorem remembers_emitFields : (fs : List (String × Expr)) → Remembers (emitFields e fs)
  | [] => by rw [emitFields]; exact .pure _
  | (_, x) :: fs => by rw [emitFields]; exact (remembers_emit x).bind fun _ => (remembers_emitFields fs).map _

end

end Expr

namespace Stmt

variable {e : Emitter}

theorem remembers_emitAssign (depth : Nat) (lhs rhs : List Expr) : Remembers (emitAssign e depth lhs rhs) := by
  unfold emitAssign
  split
  · exact (Expr.remembers_emit _).map _
  · exact (Expr.remembers_emit _).bind fun _ => (Expr.remembers_emit _).map _
  · exact .refuse _ _

theorem remembers_emitDecl (depth : Nat) (n : Slot) (init : Expr) : Remembers (Stmt.emit e depth (.decl n init)) := by
  rw [emit]
  refine (Emitter.remembers_variableType n).bind fun _ => (Emitter.remembers_variableName n).bind fun _ => ?_
  split
  · exact .pure _
  · exact (Expr.remembers_emit _).map _

mutual

/-- No statement makes a remembered construct forgotten, at any depth. -/
theorem remembers_emit : (s : Stmt) → (depth : Nat) → Remembers (s.emit e depth)
  | .block body, depth => by rw [emit]; exact (remembers_emitBlock body (depth + 1)).map _
  | .decl n init, depth => remembers_emitDecl depth n init
  | .declAlias n, _ => by
    rw [emit]
    exact (Emitter.remembers_variableType n).bind fun _ => (Emitter.remembers_variableName n).map _
  | .assign lhs rhs, depth => by rw [emit]; exact remembers_emitAssign depth lhs rhs
  | .assert x, _ => by rw [emit]; exact x.remembers_emit.map _
  | .assume x, _ => by rw [emit]; exact x.remembers_emit.map _
  | .break, _ => by rw [emit]; exact .pure _
  | .continue, _ => by rw [emit]; exact .pure _
  | .debug _, _ => by rw [emit]; exact .pure _
  | .doWhile body x, depth => by
    rw [emit]
    exact (remembers_emitBlock body (depth + 1)).bind fun _ => x.remembers_emit.map _
  | .fail, _ => by rw [emit]; exact .pure _
  | .ifThen x yes, depth => by rw [emit]; exact x.remembers_emit.bind fun _ => (remembers_emitBlock yes (depth + 1)).map _
  | .ifElse x yes no, depth => by
    rw [emit]
    exact x.remembers_emit.bind fun _ => (remembers_emitBlock yes (depth + 1)).bind fun _ =>
      (remembers_emitBlock no (depth + 1)).map _
  | .call x, _ => by
    rw [emit]
    split
    · exact x.remembers_emit.map _
    · exact .throw _
  | .named _ body, depth => by rw [emit]; exact (remembers_emitBlock body (depth + 1)).map _
  | .while x body, depth => by rw [emit]; exact x.remembers_emit.bind fun _ => (remembers_emitBlock body (depth + 1)).map _
  | .ret [], _ => by rw [emit]; exact .pure _
  | .ret [x], _ => by rw [emit]; exact x.remembers_emit.map _
  | .ret (_ :: _ :: _), _ => by rw [emit]; exact .refuse _ _
  | .skip, _ => by rw [emit]; exact .pure _
  | .switch x cs, depth => by rw [emit]; exact x.remembers_emit.bind fun _ => (remembers_emitClauses cs (depth + 1)).map _
  | .hole, _ => by rw [emit]; exact .throw _

theorem remembers_emitBlock : (ss : List Stmt) → (depth : Nat) → Remembers (emitBlock e depth ss)
  | [], _ => by rw [emitBlock]; exact .pure _
  | s :: ss, depth => by
    rw [emitBlock]
    exact (remembers_emit s depth).bind fun ls => .unlessSpoilt ls _

theorem remembers_emitClauses : (cs : List (List Constant × List Stmt)) → (depth : Nat) → Remembers (emitClauses e depth cs)
  | [], _ => by rw [emitClauses]; exact .pure _
  | (_, body) :: cs, depth => by
    rw [emitClauses]
    exact (remembers_emitBlock body (depth + 1)).bind fun _ => (remembers_emitClauses cs depth).map _

end

end Stmt

end Narrowing
