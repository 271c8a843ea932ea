import Narrowing.Proofs.Output
import Narrowing.Proofs.Text

/-!
# Terms of C

A printed expression shows less than the tree it came from: a negative constant looks like the negation of a positive
one, and of a type only its C name is left.  `CTerm` is what remains (`Expr.yields_of_cTerm?`).  The words, operators
and names of types that terms are printed with are told apart by their texts, and each of them ends where the text
says so.
-/

namespace Narrowing

/-! ### Terms -/

/-- An expression as its C text shows it. -/
inductive CTerm where
  | const (c : Constant)
  | var (slot : Slot)
  | unary (op : Operator) (x : CTerm)
  | binary (op : Operator) (x y : CTerm)
  /-- A conversion to the type with a C name. -/
  | convert (type : String) (x : CTerm)
  | deref (x : CTerm)
  | new (x : CTerm)
  deriving DecidableEq, Repr

/-- The term of an expression made of constants, variables of the function, operators of the right arity, conversions
to types with a C name, dereferences and `new`.  A negative constant becomes the negation of a positive one. -/
def Expr.cTerm? (e : Emitter) : Expr → Option CTerm
  | .const (.int n) => some (if n < 0 then .unary .neg (.const (.int (-n))) else .const (.int n))
  | .const c => some (.const c)
  | .var n => (e.decl.lookup? n).map fun _ => .var n
  | .unary op x => if op.isUnary then (x.cTerm? e).map (.unary op) else none
  | .binary op x y =>
    if op.isUnary then none else (x.cTerm? e).bind fun a => (y.cTerm? e).map fun b => .binary op a b
  | .convert t x => (t.cName? e.selector).bind fun name => (x.cTerm? e).map fun a => .convert name a
  | .deref x => (x.cTerm? e).map .deref
  | .new x => (x.cTerm? e).map .new
  | _ => none

/-- The variables have different names, and none is called like a constant or like `new`. -/
structure Emitter.HasPlainNames (e : Emitter) : Prop where
  nodup : (e.decl.vars.map Variable.name).Nodup
  isName : ∀ v ∈ e.decl.vars, Text.isName v.name = true
  notReserved : ∀ v ∈ e.decl.vars, v.name ∉ ["true", "false", "NULL", "new"]

/-- The text of an operand behind a unary operator; two minus signs are kept apart. -/
def Operator.before (op : Operator) (operand : List Char) : List Char :=
  if op = .neg ∧ operand.head? = some '-' then '-' :: ' ' :: operand else op.text.toList ++ operand

namespace CTerm

/-- The term takes brackets as an operand. -/
def isCompound : CTerm → Bool
  | binary .. | convert .. | deref .. | new .. => true
  | _ => false

/-- The text of a term as that of an operand. -/
def enclose (a : CTerm) (text : List Char) : List Char := if a.isCompound then '(' :: (text ++ [')']) else text

/-- The text of a term. -/
def chars (e : Emitter) : CTerm → List Char
  | const c => c.emit.toList
  | var n => ((e.decl.lookup? n).map fun v => v.name.toList).getD []
  | unary op x => op.before (x.enclose (x.chars e))
  | binary op x y => x.enclose (x.chars e) ++ ' ' :: (op.text.toList ++ ' ' :: y.enclose (y.chars e))
  | convert type x => '(' :: (type.toList ++ ')' :: ' ' :: x.enclose (x.chars e))
  | deref x => '*' :: x.enclose (x.chars e)
  | new x => ['n', 'e', 'w'] ++ ' ' :: x.enclose (x.chars e)

def operand (e : Emitter) (a : CTerm) : List Char := a.enclose (a.chars e)

/-- What holds of the terms of expressions: constants are not negative, operators have the right arity, and types are
named in C. -/
def IsProper (e : Emitter) : CTerm → Prop
  | const (.int n) => 0 ≤ n
  | const _ => True
  | var n => ∃ v, e.decl.lookup? n = some v
  | unary op x => op.isUnary = true ∧ x.IsProper e
  | binary op x y => op.isUnary = false ∧ x.IsProper e ∧ y.IsProper e
  | convert type x => IsTypeName type ∧ x.IsProper e
  | deref x => x.IsProper e
  | new x => x.IsProper e

variable {e : Emitter} {a b x y : CTerm}

theorem operand_of_isCompound (h : a.isCompound = true) : a.operand e = '(' :: (a.chars e ++ [')']) := if_pos h

theorem operand_of_not_isCompound (h : a.isCompound = false) : a.operand e = a.chars e :=
  if_neg (Bool.eq_false_iff.1 h)

end CTerm

/-! ### Terms of expressions -/

theorem Expr.toList_prefixed (op : Operator) (x : String) : (prefixed op x).toList = op.before x.toList := by
  unfold prefixed Operator.before
  split
  · rw [String.toList_append]
    rfl
  · rw [String.toList_append]

theorem CTerm.toList_asOperand {x : Expr} {a : CTerm} {e : Emitter} {s : String} (hs : s.toList = a.chars e)
    (h : x.needsBrackets = a.isCompound) : (x.asOperand s).toList = a.operand e := by
  unfold Expr.asOperand operand enclose
  rw [h]
  split
  · rw [String.toList_append, String.toList_append, hs, List.append_assoc]
    rfl
  · exact hs

/-- An expression with a term is printed as its term. -/
theorem Expr.yields_of_cTerm? {e : Emitter} : {x : Expr} → {a : CTerm} → x.cTerm? e = some a →
    ∃ s, Yields (x.emit e) s ∧ s.toList = a.chars e ∧ x.needsBrackets = a.isCompound ∧ a.IsProper e
  | .const (.int n), a, h => by
    obtain rfl := Option.some.inj h
    refine ⟨toString n, by rw [emit]; rfl, ?_⟩
    cases n with
    | ofNat n =>
      rw [if_neg (by simp)]
      exact ⟨rfl, rfl, Int.natCast_nonneg n⟩
    | negSucc n =>
      rw [if_pos (Int.negSucc_lt_zero n)]
      refine ⟨?_, rfl, rfl, by simp only [CTerm.IsProper]; omega⟩
      have hdigits : (CTerm.const (.int (-Int.negSucc n))).chars e = Nat.toDigits 10 (n + 1) :=
        Text.toList_toString_ofNat (n + 1)
      have hsign : (Nat.toDigits 10 (n + 1)).head? ≠ some '-' := by
        intro hhead
        have hdigit := Nat.isDigit_of_mem_toDigits (by decide) (by decide) (List.mem_of_head? hhead)
        exact absurd hdigit (by decide)
      rw [Text.toList_toString_negSucc, CTerm.chars, hdigits]
      show _ = Operator.before .neg (Nat.toDigits 10 (n + 1))
      rw [Operator.before, if_neg fun h => hsign h.2]
      rfl
  | .const (.bool v), a, h => by
    obtain rfl := Option.some.inj h
    exact ⟨(Constant.bool v).emit, by rw [emit]; rfl, rfl, rfl, trivial⟩
  | .const .null, a, h => by
    obtain rfl := Option.some.inj h
    exact ⟨Constant.null.emit, by rw [emit]; rfl, rfl, rfl, trivial⟩
  | .var n, a, h => by
    obtain ⟨v, hv, rfl⟩ := Option.map_eq_some_iff.1 h
    refine ⟨v.name, ?_, ?_, rfl, ⟨v, hv⟩⟩
    · rw [emit]
      exact Emitter.yields_variableName_iff.2 ⟨v, hv, rfl⟩
    · simp [CTerm.chars, hv]
  | .unary op x, a, h => by
    rw [cTerm?] at h
    split at h
    · next hop =>
      obtain ⟨a, ha, rfl⟩ := Option.map_eq_some_iff.1 h
      obtain ⟨s, hs, htext, hbrackets, hproper⟩ := yields_of_cTerm? ha
      refine ⟨_, by rw [emit, if_pos hop]; exact hs.bind rfl, ?_, rfl, hop, hproper⟩
      rw [toList_prefixed, CTerm.toList_asOperand htext hbrackets]
      rfl
    · cases h
  | .binary op x y, a, h => by
    rw [cTerm?] at h
    split at h
    · cases h
    · next hop =>
      obtain ⟨a, ha, h⟩ := Option.bind_eq_some_iff.1 h
      obtain ⟨b, hb, rfl⟩ := Option.map_eq_some_iff.1 h
      obtain ⟨s, hs, hstext, hsbrackets, hsproper⟩ := yields_of_cTerm? ha
      obtain ⟨t, ht, httext, htbrackets, htproper⟩ := yields_of_cTerm? hb
      refine ⟨_, by rw [emit, if_neg hop]; exact hs.bind (ht.bind rfl), ?_, rfl,
        Bool.eq_false_iff.2 hop, hsproper, htproper⟩
      simp only [String.toList_append, CTerm.toList_asOperand hstext hsbrackets,
        CTerm.toList_asOperand httext htbrackets, List.append_assoc]
      rfl
  | .convert t x, a, h => by
    rw [cTerm?] at h
    obtain ⟨name, hname, h⟩ := Option.bind_eq_some_iff.1 h
    obtain ⟨a, ha, rfl⟩ := Option.map_eq_some_iff.1 h
    obtain ⟨s, hs, htext, hbrackets, hproper⟩ := yields_of_cTerm? ha
    refine ⟨_, by rw [emit]; exact (Emitter.yields_typeName_iff.2 hname).bind (hs.bind rfl), ?_, rfl,
      Ty.isTypeName_of_cName? hname, hproper⟩
    simp only [String.toList_append, CTerm.toList_asOperand htext hbrackets, List.append_assoc]
    rfl
  | .deref x, a, h => by
    rw [cTerm?] at h
    obtain ⟨a, ha, rfl⟩ := Option.map_eq_some_iff.1 h
    obtain ⟨s, hs, htext, hbrackets, hproper⟩ := yields_of_cTerm? ha
    refine ⟨_, by rw [emit]; exact hs.bind rfl, ?_, rfl, hproper⟩
    rw [String.toList_append, CTerm.toList_asOperand htext hbrackets]
    rfl
  | .new x, a, h => by
    rw [cTerm?] at h
    obtain ⟨a, ha, rfl⟩ := Option.map_eq_some_iff.1 h
    obtain ⟨s, hs, htext, hbrackets, hproper⟩ := yields_of_cTerm? ha
    refine ⟨_, by rw [emit]; exact hs.bind rfl, ?_, rfl, hproper⟩
    rw [String.toList_append, CTerm.toList_asOperand htext hbrackets]
    rfl
  | .field .., a, h => nomatch h
  | .length .., a, h => nomatch h
  | .index .., a, h => nomatch h
  | .array .., a, h => nomatch h
  | .fill .., a, h => nomatch h
  | .record .., a, h => nomatch h
  | .invoke .., a, h => nomatch h
  | .indirect .., a, h => nomatch h
  | .lambda .., a, h => nomatch h
  | .quantifier .., a, h => nomatch h
  | .is .., a, h => nomatch h
  | .hole, a, h => nomatch h

/-! ### Words -/

/-- Nothing, or something that cannot belong to an operand before it. -/
def Stops (s : List Char) : Prop := ∀ c, s.head? = some c → c = ' ' ∨ c = ')'

theorem stops_blank (s : List Char) : Stops (' ' :: s) := fun _ h => .inl (Option.some.inj h).symm

theorem stops_bracket (s : List Char) : Stops (')' :: s) := fun _ h => .inr (Option.some.inj h).symm

theorem Stops.isNameRest {s : List Char} (h : Stops s) (c : Char) (hc : s.head? = some c) :
    Text.isNameRest c = false := by
  rcases h c hc with rfl | rfl <;> decide

theorem Stops.ne_open {s : List Char} (h : Stops s) : s.head? ≠ some '(' := by
  intro hopen
  rcases h '(' hopen with h | h <;> exact absurd h (by decide)

theorem isNameRest_of_open (s : List Char) (c : Char) (h : ('(' :: s).head? = some c) : Text.isNameRest c = false := by
  cases h
  decide

/-- A character or more of a name. -/
def IsWord (w : List Char) : Prop := w ≠ [] ∧ ∀ c ∈ w, Text.isNameRest c = true

namespace IsWord

variable {v w s t : List Char}

theorem head (hw : IsWord w) {c : Char} (h : w ++ s = c :: t) : Text.isNameRest c = true := by
  obtain ⟨d, w, rfl⟩ := List.exists_cons_of_ne_nil hw.1
  rw [← (List.cons.inj h).1]
  exact hw.2 d List.mem_cons_self

theorem append_inj (hv : IsWord v) (hw : IsWord w) (hs : ∀ c, s.head? = some c → Text.isNameRest c = false)
    (ht : ∀ c, t.head? = some c → Text.isNameRest c = false) (h : v ++ s = w ++ t) : v = w ∧ s = t :=
  Text.run_append_inj hv.2 hw.2 hs ht h

end IsWord

theorem isSome_readInt_of_toString {n : Int} {s : String} (h : toString n = s) :
    (Text.readInt s.toList).isSome = true := by
  rw [← h, Text.readInt_toString]
  rfl

theorem Constant.emit_injective {c c' : Constant} (h : c.emit = c'.emit) : c = c' := by
  cases c with
  | int n =>
    cases c' with
    | int m =>
      have hread := Text.readInt_toString n
      rw [show toString n = toString m from h, Text.readInt_toString] at hread
      rw [Option.some.inj hread]
    | bool v => cases v <;> exact absurd (isSome_readInt_of_toString h) (by decide)
    | null => exact absurd (isSome_readInt_of_toString h) (by decide)
  | bool v =>
    cases c' with
    | int m => cases v <;> exact absurd (isSome_readInt_of_toString h.symm) (by decide)
    | bool v' => cases v <;> cases v' <;> first | rfl | exact absurd h (by decide)
    | null => cases v <;> exact absurd h (by decide)
  | null =>
    cases c' with
    | int m => exact absurd (isSome_readInt_of_toString h.symm) (by decide)
    | bool v => cases v <;> exact absurd h (by decide)
    | null => rfl

namespace Emitter

variable {e : Emitter} {n m : Slot} {v w : Variable}

theorem lookup?_eq_some (h : e.decl.lookup? n = some v) : ∃ i : Nat, n = (i : Int) ∧ e.decl.vars[i]? = some v := by
  unfold FunctionDecl.lookup? variableAt? at h
  split at h
  · cases h
  · next hn => exact ⟨n.toNat, (Int.toNat_of_nonneg (Int.not_lt.1 hn)).symm, h⟩

theorem mem_vars_of_lookup? (h : e.decl.lookup? n = some v) : v ∈ e.decl.vars := by
  obtain ⟨i, -, hi⟩ := lookup?_eq_some h
  exact List.mem_of_getElem? hi

/-- Different variables have different names. -/
theorem HasPlainNames.slot_eq (hn : e.HasPlainNames) (hv : e.decl.lookup? n = some v) (hw : e.decl.lookup? m = some w)
    (h : v.name = w.name) : n = m := by
  obtain ⟨i, rfl, hi⟩ := lookup?_eq_some hv
  obtain ⟨j, rfl, hj⟩ := lookup?_eq_some hw
  have hlt : i < (e.decl.vars.map Variable.name).length := by
    rw [List.length_map]
    exact (List.getElem?_eq_some_iff.1 hi).1
  have hname : (e.decl.vars.map Variable.name)[i]? = (e.decl.vars.map Variable.name)[j]? := by
    rw [List.getElem?_map, List.getElem?_map, hi, hj, Option.map_some, Option.map_some, h]
  rw [(List.getElem?_inj hlt hn.nodup).1 hname]

end Emitter

namespace CTerm

variable {e : Emitter} {a b x y : CTerm} {s t : List Char}

/-- A constant or a variable. -/
def isAtom : CTerm → Bool
  | const _ | var _ => true
  | _ => false

theorem chars_var {n : Slot} {v : Variable} (h : e.decl.lookup? n = some v) : (var n).chars e = v.name.toList := by
  simp [chars, h]

theorem isWord_of_isAtom (hn : e.HasPlainNames) (h : a.isAtom = true) (ha : a.IsProper e) : IsWord (a.chars e) := by
  cases a with
  | const c =>
    cases c with
    | int n =>
      obtain ⟨m, rfl⟩ := Int.eq_ofNat_of_zero_le ha
      have hdigits : (const (.int m)).chars e = Nat.toDigits 10 m := Text.toList_toString_ofNat m
      rw [hdigits]
      exact ⟨Nat.toDigits_ne_nil, fun c hc => Text.isNameRest_of_mem_toDigits hc⟩
    | bool v => cases v <;> exact Text.isNameRest_of_isName (by decide)
    | null => exact Text.isNameRest_of_isName (w := "NULL") (by decide)
  | var n =>
    obtain ⟨v, hv⟩ := ha
    rw [chars_var hv]
    exact Text.isNameRest_of_isName (hn.isName v (Emitter.mem_vars_of_lookup? hv))
  | _ => cases h

/-- No variable is called like a constant. -/
theorem emit_ne_name (hn : e.HasPlainNames) {c : Constant} {n : Slot} {v : Variable} (hc : (const c).IsProper e)
    (hv : e.decl.lookup? n = some v) : c.emit ≠ v.name := by
  intro heq
  have hmem := Emitter.mem_vars_of_lookup? hv
  have hreserved := hn.notReserved v hmem
  rw [← heq] at hreserved
  cases c with
  | int m =>
    -- a numeral starts with a digit
    obtain ⟨m, rfl⟩ := Int.eq_ofNat_of_zero_le hc
    have hdigits : v.name.toList = Nat.toDigits 10 m := by
      rw [← heq]
      exact Text.toList_toString_ofNat m
    have hname := hn.isName v hmem
    unfold Text.isName at hname
    rw [hdigits] at hname
    cases hcs : Nat.toDigits 10 m with
    | nil => exact Nat.toDigits_ne_nil hcs
    | cons c cs =>
      have hdigit : c.isDigit = true :=
        Nat.isDigit_of_mem_toDigits (by decide) (by decide) (hcs ▸ List.mem_cons_self)
      rw [hcs] at hname
      have hstart := (Bool.and_eq_true_iff.1 hname).1
      exact absurd hstart (by simp [Text.isNameStart_of_isDigit hdigit])
  | bool b => cases b <;> exact hreserved (by decide)
  | null => exact hreserved (by decide)

/-- Atoms are told apart by their words. -/
theorem eq_of_chars_eq (hn : e.HasPlainNames) (hatom : a.isAtom = true) (hatom' : b.isAtom = true) (ha : a.IsProper e)
    (hb : b.IsProper e) (h : a.chars e = b.chars e) : a = b := by
  cases a with
  | const c =>
    cases b with
    | const c' => rw [Constant.emit_injective (String.toList_inj.1 h)]
    | var n =>
      obtain ⟨v, hv⟩ := hb
      rw [chars_var hv] at h
      exact absurd (String.toList_inj.1 h) (emit_ne_name hn ha hv)
    | _ => cases hatom'
  | var n =>
    obtain ⟨v, hv⟩ := ha
    rw [chars_var hv] at h
    cases b with
    | const c' => exact absurd (String.toList_inj.1 h).symm (emit_ne_name hn hb hv)
    | var m =>
      obtain ⟨w, hw⟩ := hb
      rw [chars_var hw] at h
      rw [hn.slot_eq hv hw (String.toList_inj.1 h)]
    | _ => cases hatom'
  | _ => cases hatom

theorem isWord_new : IsWord ['n', 'e', 'w'] := Text.isNameRest_of_isName (w := "new") (by decide)

theorem chars_ne_new (hn : e.HasPlainNames) (hatom : a.isAtom = true) (ha : a.IsProper e) :
    a.chars e ≠ ['n', 'e', 'w'] := by
  intro h
  cases a with
  | const c =>
    have hemit : c.emit = "new" := String.toList_inj.1 h
    cases c with
    | int n => exact absurd (isSome_readInt_of_toString hemit) (by decide)
    | bool b => cases b <;> exact absurd hemit (by decide)
    | null => exact absurd hemit (by decide)
  | var n =>
    obtain ⟨v, hv⟩ := ha
    rw [chars_var hv] at h
    have hname : v.name = "new" := String.toList_inj.1 h
    exact hn.notReserved v (Emitter.mem_vars_of_lookup? hv) (by rw [hname]; decide)
  | _ => cases hatom

end CTerm

/-! ### Operators -/

namespace Operator

variable {op op' : Operator} {s t s' t' : List Char}

theorem isUnary_cases (h : op.isUnary = true) : op = .neg ∨ op = .not ∨ op = .invert ∨ ∃ n, op = .unknown n := by
  cases op <;> simp_all [isUnary]

theorem before_neg (t : List Char) :
    Operator.neg.before t = '-' :: (if t.head? = some '-' then ' ' :: t else t) := by
  unfold before
  by_cases h : t.head? = some '-'
  · rw [if_pos ⟨rfl, h⟩, if_pos h]
  · rw [if_neg fun hneg => h hneg.2, if_neg h]
    rfl

theorem before_not (t : List Char) : Operator.not.before t = '!' :: t := rfl

theorem before_invert (t : List Char) : Operator.invert.before t = '~' :: t := rfl

theorem isWord_unknown : IsWord "Operator".toList := Text.isNameRest_of_isName (by decide)

theorem toList_text_unknown (n : Int) :
    (Operator.unknown n).text.toList = "Operator".toList ++ '(' :: ((toString n).toList ++ [')']) := by
  simp only [text, String.toList_append]
  rfl

theorem before_unknown (n : Int) (t : List Char) :
    (Operator.unknown n).before t = "Operator".toList ++ '(' :: ((toString n).toList ++ ')' :: t) := by
  unfold before
  rw [if_neg (by simp), toList_text_unknown]
  simp

theorem toString_append_inj {n m : Int} (h : (toString n).toList ++ ')' :: s = (toString m).toList ++ ')' :: t) :
    n = m ∧ s = t := by
  have hbracket : ∀ k : Int, ')' ∉ (toString k).toList := by
    intro k hmem
    rcases Text.isNameRest_of_mem_toString hmem with h | h <;> exact absurd h (by decide)
  obtain ⟨htext, hrest⟩ := Text.append_cons_inj (hbracket n) (hbracket m) h
  have hread := Text.readInt_toString n
  rw [htext, Text.readInt_toString] at hread
  exact ⟨(Option.some.inj hread).symm, hrest⟩

/-- The text of a unary operator ends where its operand begins. -/
theorem before_append_inj (hop : op.isUnary = true) (hop' : op'.isUnary = true) (ht : ∃ c r, t = c :: r ∧ c ≠ ' ')
    (ht' : ∃ c r, t' = c :: r ∧ c ≠ ' ') (h : op.before t ++ s = op'.before t' ++ s') :
    op = op' ∧ t ++ s = t' ++ s' := by
  obtain ⟨c, r, rfl, hc⟩ := ht
  obtain ⟨c', r', rfl, hc'⟩ := ht'
  rcases isUnary_cases hop with rfl | rfl | rfl | ⟨n, rfl⟩ <;>
    rcases isUnary_cases hop' with rfl | rfl | rfl | ⟨m, rfl⟩ <;>
    simp only [before_neg, before_not, before_invert, before_unknown] at h
  case inl.inl =>
    refine ⟨rfl, ?_⟩
    have h := (List.cons.inj h).2
    split at h <;> split at h
    · exact (List.cons.inj h).2
    · exact absurd (List.cons.inj h).1.symm hc'
    · exact absurd (List.cons.inj h).1 hc
    · exact h
  case inr.inl.inr.inl => exact ⟨rfl, (List.cons.inj h).2⟩
  case inr.inr.inl.inr.inr.inl => exact ⟨rfl, (List.cons.inj h).2⟩
  case inr.inr.inr.inr.inr.inr =>
    simp only [List.append_assoc, List.cons_append] at h
    obtain ⟨rfl, hrest⟩ := toString_append_inj (List.cons.inj (List.append_cancel_left h)).2
    exact ⟨rfl, hrest⟩
  -- different operators start with different characters
  all_goals exact absurd (Option.some.inj (congrArg List.head? h)) (by decide)

theorem mem_known_or_unknown (op : Operator) : op ∈ known ∨ ∃ n, op = .unknown n := by
  cases op with
  | unknown n => exact .inr ⟨n, rfl⟩
  | _ => exact .inl (by decide)

theorem blank_notMem_text (op : Operator) : ' ' ∉ op.text.toList := by
  rcases mem_known_or_unknown op with hop | ⟨n, rfl⟩
  · have hknown : ∀ op ∈ known, ' ' ∉ op.text.toList := by decide
    exact hknown op hop
  · have hn : ' ' ∉ (toString n).toList := by
      intro hmem
      rcases Text.isNameRest_of_mem_toString hmem with h | h <;> exact absurd h (by decide)
    rw [toList_text_unknown]
    simp only [List.mem_append, List.mem_cons, List.not_mem_nil, or_false, not_or]
    exact ⟨by decide, by decide, hn, by decide⟩

/-- Operators of one arity are told apart by their texts. -/
theorem eq_of_text_eq (hop : op.isUnary = op'.isUnary) (h : op.text = op'.text) : op = op' := by
  have hhead : ∀ op ∈ known, op.text.toList.head? ≠ some 'O' := by decide
  rcases mem_known_or_unknown op with hk | ⟨n, rfl⟩ <;> rcases mem_known_or_unknown op' with hk' | ⟨m, rfl⟩
  · have hknown : ∀ op ∈ known, ∀ op' ∈ known, op.isUnary = op'.isUnary → op.text = op'.text → op = op' := by decide
    exact hknown op hk op' hk' hop h
  · exact absurd (by rw [h, toList_text_unknown]; rfl) (hhead op hk)
  · exact absurd (by rw [← h, toList_text_unknown]; rfl) (hhead op' hk')
  · have htext := congrArg String.toList h
    rw [toList_text_unknown, toList_text_unknown] at htext
    rw [(toString_append_inj (List.cons.inj (List.append_cancel_left htext)).2).1]

theorem text_append_inj (hop : op.isUnary = op'.isUnary)
    (h : op.text.toList ++ ' ' :: s = op'.text.toList ++ ' ' :: t) : op = op' ∧ s = t := by
  obtain ⟨htext, hrest⟩ := Text.append_cons_inj op.blank_notMem_text op'.blank_notMem_text h
  exact ⟨eq_of_text_eq hop (String.toList_inj.1 htext), hrest⟩

end Operator

/-! ### Names of types -/

namespace IsTypeName

variable {m n : String} {s t : List Char}

theorem isName_of_mem_typeWords {w : String} (h : w ∈ typeWords) : Text.isName w = true := by
  have hwords : ∀ w ∈ typeWords, Text.isName w = true := by decide
  exact hwords w h

theorem array_append (name : String) (s : List Char) :
    ("arr_t(" ++ name ++ ")").toList ++ s = "arr_t".toList ++ '(' :: (name.toList ++ ')' :: s) := by
  simp only [String.toList_append, List.append_assoc]
  rfl

theorem isWord_arr_t : IsWord "arr_t".toList := Text.isNameRest_of_isName (by decide)

/-- A closing bracket ends the name of a type. -/
theorem append_inj (hm : IsTypeName m) (hn : IsTypeName n) (h : m.toList ++ ')' :: s = n.toList ++ ')' :: t) :
    m = n ∧ s = t := by
  induction hm generalizing n s t with
  | word hw =>
    have hword : IsWord _ := Text.isNameRest_of_isName (isName_of_mem_typeWords hw)
    cases hn with
    | word hw' =>
      have hword' : IsWord _ := Text.isNameRest_of_isName (isName_of_mem_typeWords hw')
      obtain ⟨hwords, hrest⟩ := hword.append_inj hword' (stops_bracket s).isNameRest (stops_bracket t).isNameRest h
      exact ⟨String.toList_inj.1 hwords, (List.cons.inj hrest).2⟩
    | array _ =>
      rw [array_append] at h
      have hrest := (hword.append_inj isWord_arr_t (stops_bracket s).isNameRest (isNameRest_of_open _) h).2
      exact absurd (List.cons.inj hrest).1 (by decide)
  | array _ ih =>
    rw [array_append] at h
    cases hn with
    | word hw' =>
      have hword' : IsWord _ := Text.isNameRest_of_isName (isName_of_mem_typeWords hw')
      have hrest := (isWord_arr_t.append_inj hword' (isNameRest_of_open _) (stops_bracket t).isNameRest h).2
      exact absurd (List.cons.inj hrest).1 (by decide)
    | array hn =>
      rw [array_append] at h
      obtain ⟨rfl, hrest⟩ := ih hn (List.cons.inj (List.append_cancel_left h)).2
      exact ⟨rfl, (List.cons.inj hrest).2⟩

/-- The name of a type starts with a word, and no blank comes after it. -/
theorem exists_word (hm : IsTypeName m) (s : List Char) : ∃ w c r, m.toList ++ ')' :: s = w ++ c :: r ∧ IsWord w ∧
    w ≠ "Operator".toList ∧ (c = '(' ∨ c = ')') := by
  cases hm with
  | word hw =>
    have hne : ∀ w ∈ typeWords, w.toList ≠ "Operator".toList := by decide
    exact ⟨m.toList, ')', s, rfl, Text.isNameRest_of_isName (isName_of_mem_typeWords hw), hne m hw, .inr rfl⟩
  | array hn =>
    exact ⟨"arr_t".toList, '(', _, array_append _ _, isWord_arr_t, by decide, .inl rfl⟩

end IsTypeName

end Narrowing
