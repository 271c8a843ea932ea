import Mathlib.Data.List.Chain
import Narrowing.Proofs.CTerm

/-!
# Printed expressions are unambiguous

The text of a term determines the term.  Brackets stand around an operand that is not a single word or a prefixed
operand, so an operand ends at the first blank or closing bracket outside of it.  The induction is therefore on operands
with some text behind them (`CTerm.delimits`).
-/

namespace Narrowing

/-! ### Operands -/

namespace CTerm

variable {e : Emitter} {op : Operator} {a b x y : CTerm} {s t w : List Char}

theorem atom_or_unary_or_compound (a : CTerm) : a.isAtom = true ∨ (∃ op x, a = unary op x) ∨ a.isCompound = true := by
  cases a <;> simp [isAtom, isCompound]

theorem operand_of_isAtom (h : a.isAtom = true) : a.operand e = a.chars e := by
  cases a <;> first | rfl | cases h

theorem isCompound_cases (a : CTerm) : a.isCompound = false ∨ (∃ op x y, a = binary op x y) ∨
    (∃ type x, a = convert type x) ∨ (∃ x, a = deref x) ∨ ∃ x, a = new x := by
  cases a <;> simp [isCompound]

theorem operand_append_of_isCompound (h : a.isCompound = true) : a.operand e ++ s = '(' :: (a.chars e ++ ')' :: s) := by
  simp [operand_of_isCompound h]

theorem binary_append :
    (binary op x y).chars e ++ s = x.operand e ++ ' ' :: (op.text.toList ++ ' ' :: (y.operand e ++ s)) := by
  simp [chars, operand]

theorem convert_append {type : String} :
    (convert type x).chars e ++ s = '(' :: (type.toList ++ ')' :: ' ' :: (x.operand e ++ s)) := by
  simp [chars, operand]

theorem deref_append : (deref x).chars e ++ s = '*' :: (x.operand e ++ s) := rfl

theorem new_append : (new x).chars e ++ s = ['n', 'e', 'w'] ++ ' ' :: (x.operand e ++ s) := rfl

/-- How an operand starts. -/
theorem exists_head_operand (hn : e.HasPlainNames) (ha : a.IsProper e) :
    ∃ c r, a.operand e = c :: r ∧ c ≠ ' ' ∧ c ≠ '*' ∧ (c = '(' → a.isCompound = true) := by
  rcases atom_or_unary_or_compound a with hatom | ⟨op, x, rfl⟩ | hc
  · have hword := isWord_of_isAtom hn hatom ha
    obtain ⟨c, r, hcr⟩ := List.exists_cons_of_ne_nil hword.1
    have hrest : Text.isNameRest c = true := hword.2 c (by rw [hcr]; exact List.mem_cons_self)
    rw [operand_of_isAtom hatom]
    refine ⟨c, r, hcr, ?_, ?_, ?_⟩ <;> rintro rfl <;> exact absurd hrest (by decide)
  · show ∃ c r, op.before (x.operand e) = c :: r ∧ _
    rcases Operator.isUnary_cases ha.1 with rfl | rfl | rfl | ⟨n, rfl⟩
    · rw [Operator.before_neg]
      exact ⟨'-', _, rfl, by decide, by decide, fun h => absurd h (by decide)⟩
    · exact ⟨'!', _, rfl, by decide, by decide, fun h => absurd h (by decide)⟩
    · exact ⟨'~', _, rfl, by decide, by decide, fun h => absurd h (by decide)⟩
    · rw [Operator.before_unknown]
      exact ⟨'O', _, rfl, by decide, by decide, fun h => absurd h (by decide)⟩
  · exact ⟨'(', _, operand_of_isCompound hc, by decide, by decide, fun _ => hc⟩

/-- An operand that starts with a whole word is that word, unless the word belongs to an unknown operator. -/
theorem isAtom_of_operand_append (hn : e.HasPlainNames) (ha : a.IsProper e) (hs : Stops s) (hw : IsWord w)
    (ht : ∀ c, t.head? = some c → Text.isNameRest c = false) (hcall : w ≠ "Operator".toList ∨ t.head? ≠ some '(')
    (h : a.operand e ++ s = w ++ t) : a.isAtom = true ∧ a.chars e = w ∧ s = t := by
  rcases atom_or_unary_or_compound a with hatom | ⟨op, x, rfl⟩ | hc
  · rw [operand_of_isAtom hatom] at h
    exact ⟨hatom, (isWord_of_isAtom hn hatom ha).append_inj hw hs.isNameRest ht h⟩
  · exfalso
    have h : op.before (x.operand e) ++ s = w ++ t := h
    rcases Operator.isUnary_cases ha.1 with rfl | rfl | rfl | ⟨n, rfl⟩
    · rw [Operator.before_neg] at h
      exact absurd (hw.head h.symm) (by decide)
    · exact absurd (hw.head h.symm) (by decide)
    · exact absurd (hw.head h.symm) (by decide)
    · rw [Operator.before_unknown, List.append_assoc] at h
      obtain ⟨rfl, rfl⟩ := Operator.isWord_unknown.append_inj hw (isNameRest_of_open _) ht h
      rcases hcall with hcall | hcall <;> exact hcall rfl
  · rw [operand_of_isCompound hc] at h
    exact absurd (hw.head h.symm) (by decide)

theorem operand_append_ne_star (hn : e.HasPlainNames) (ha : a.IsProper e) : a.operand e ++ s ≠ '*' :: t := by
  obtain ⟨c, r, hcr, -, hstar, -⟩ := exists_head_operand hn ha
  intro h
  rw [hcr] at h
  exact hstar (List.cons.inj h).1

theorem operand_append_ne_new (hn : e.HasPlainNames) (ha : a.IsProper e) (hs : Stops s) :
    a.operand e ++ s ≠ ['n', 'e', 'w'] ++ ' ' :: t := by
  intro h
  obtain ⟨hatom, hnew, -⟩ :=
    isAtom_of_operand_append hn ha hs isWord_new (stops_blank t).isNameRest (.inl (by decide)) h
  exact chars_ne_new hn hatom ha hnew

/-- A conversion is no bracketed operand: the name of its type ends before any blank. -/
theorem operand_append_ne_convert (hn : e.HasPlainNames) (ha : a.IsProper e) {type : String} (htype : IsTypeName type) :
    a.operand e ++ ' ' :: s ≠ '(' :: (type.toList ++ ')' :: t) := by
  intro h
  obtain ⟨d, r, hdr, -, -, hopen⟩ := exists_head_operand hn ha
  have hc : a.isCompound = true := by
    rw [hdr] at h
    exact hopen (List.cons.inj h).1
  rw [operand_append_of_isCompound hc] at h
  obtain ⟨w, c, u, hw, hword, hne, hstop⟩ := htype.exists_word t
  rw [hw] at h
  have h := (List.cons.inj h).2
  have hrest : Text.isNameRest c = false := by rcases hstop with rfl | rfl <;> decide
  have hcu : ∀ d, (c :: u).head? = some d → Text.isNameRest d = false := by
    rintro d hd
    cases hd
    exact hrest
  have hblank : c ≠ ' ' := by rcases hstop with rfl | rfl <;> decide
  -- what stands in brackets does not start with a word, or a blank follows the word
  cases a with
  | binary op x y =>
    rw [binary_append] at h
    have hcu := (isAtom_of_operand_append hn ha.2.1 (stops_blank _) hword hcu (.inl hne) h).2.2
    exact hblank (List.cons.inj hcu).1.symm
  | convert type' x => exact absurd (hword.head h.symm) (by decide)
  | deref x => exact absurd (hword.head h.symm) (by decide)
  | new x =>
    rw [new_append] at h
    have hcu := (isWord_new.append_inj hword (stops_blank _).isNameRest hcu h).2
    exact hblank (List.cons.inj hcu).1.symm
  | _ => cases hc

/-! ### Terms from their texts -/

/-- Nothing, or a closing bracket first. -/
def Ends (s : List Char) : Prop := ∀ c, s.head? = some c → c = ')'

theorem ends_nil : Ends [] := nofun

theorem ends_bracket (s : List Char) : Ends (')' :: s) := fun _ h => (Option.some.inj h).symm

theorem Ends.stops (h : Ends s) : Stops s := fun c hc => .inr (h c hc)

theorem Ends.ne_blank (h : Ends s) : s ≠ ' ' :: t := by
  rintro rfl
  exact absurd (h ' ' rfl) (by decide)

/-- As an operand, the term is read back from any text that it starts. -/
def Delimits (e : Emitter) (a : CTerm) : Prop := ∀ ⦃b : CTerm⦄ ⦃s t : List Char⦄, b.IsProper e → Stops s → Stops t →
  a.operand e ++ s = b.operand e ++ t → a = b ∧ s = t

/-- Between brackets, the term is read back. -/
def Closes (e : Emitter) (a : CTerm) : Prop := ∀ ⦃b : CTerm⦄ ⦃s t : List Char⦄, b.IsProper e → Ends s → Ends t →
  a.chars e ++ s = b.chars e ++ t → a = b ∧ s = t

theorem Closes.delimits (hn : e.HasPlainNames) (hc : a.isCompound = true) (h : a.Closes e) : a.Delimits e := by
  intro b s t hb _ _ heq
  rw [operand_append_of_isCompound hc] at heq
  obtain ⟨c, r, hcr, -, -, hopen⟩ := exists_head_operand hn hb
  have hc' : b.isCompound = true := by
    rw [hcr] at heq
    exact hopen (List.cons.inj heq).1.symm
  rw [operand_append_of_isCompound hc'] at heq
  obtain ⟨rfl, hrest⟩ := h hb (ends_bracket s) (ends_bracket t) (List.cons.inj heq).2
  exact ⟨rfl, (List.cons.inj hrest).2⟩

/-- What is no compound has no text of a compound. -/
theorem Delimits.closes (hn : e.HasPlainNames) (ha : a.IsProper e) (hc : a.isCompound = false) (h : a.Delimits e) :
    a.Closes e := by
  intro b s t hb hs ht heq
  rw [← operand_of_not_isCompound hc] at heq
  rcases isCompound_cases b with hb' | ⟨op, x, y, rfl⟩ | ⟨type, x, rfl⟩ | ⟨x, rfl⟩ | ⟨x, rfl⟩
  · rw [← operand_of_not_isCompound hb'] at heq
    exact h hb hs.stops ht.stops heq
  · -- behind the left operand there is a blank, behind `a` there is none
    rw [binary_append] at heq
    exact absurd (h hb.2.1 hs.stops (stops_blank _) heq).2 hs.ne_blank
  · obtain ⟨c, r, hcr, -, -, hopen⟩ := exists_head_operand hn ha
    rw [hcr, convert_append] at heq
    exact absurd (hopen (List.cons.inj heq).1) (by rw [hc]; decide)
  · exact absurd heq (operand_append_ne_star hn ha)
  · exact absurd heq (operand_append_ne_new hn ha hs.stops)

theorem closes_binary (hn : e.HasPlainNames) (hop : op.isUnary = false) (hx : x.IsProper e) (hdx : x.Delimits e)
    (hdy : y.Delimits e) : (binary op x y).Closes e := by
  intro b s t hb hs ht heq
  rw [binary_append] at heq
  rcases isCompound_cases b with hb' | ⟨op', x', y', rfl⟩ | ⟨type, x', rfl⟩ | ⟨x', rfl⟩ | ⟨x', rfl⟩
  · rw [← operand_of_not_isCompound hb'] at heq
    exact absurd (hdx hb (stops_blank _) ht.stops heq).2.symm ht.ne_blank
  · rw [binary_append] at heq
    obtain ⟨rfl, htext⟩ := hdx hb.2.1 (stops_blank _) (stops_blank _) heq
    obtain ⟨rfl, hright⟩ := Operator.text_append_inj (hop.trans hb.1.symm) (List.cons.inj htext).2
    obtain ⟨rfl, hrest⟩ := hdy hb.2.2 hs.stops ht.stops hright
    exact ⟨rfl, hrest⟩
  · rw [convert_append] at heq
    exact absurd heq (operand_append_ne_convert hn hx hb.1)
  · exact absurd heq (operand_append_ne_star hn hx)
  · exact absurd heq (operand_append_ne_new hn hx (stops_blank _))

theorem closes_convert (hn : e.HasPlainNames) {type : String} (htype : IsTypeName type) (hdx : x.Delimits e) :
    (convert type x).Closes e := by
  intro b s t hb hs ht heq
  rw [convert_append] at heq
  rcases isCompound_cases b with hb' | ⟨op', x', y', rfl⟩ | ⟨type', x', rfl⟩ | ⟨x', rfl⟩ | ⟨x', rfl⟩
  · rw [← operand_of_not_isCompound hb'] at heq
    obtain ⟨c, r, hcr, -, -, hopen⟩ := exists_head_operand hn hb
    rw [hcr] at heq
    exact absurd (hopen (List.cons.inj heq).1.symm) (by rw [hb']; decide)
  · rw [binary_append] at heq
    exact absurd heq.symm (operand_append_ne_convert hn hb.2.1 htype)
  · rw [convert_append] at heq
    obtain ⟨rfl, hoperand⟩ := htype.append_inj hb.1 (List.cons.inj heq).2
    obtain ⟨rfl, hrest⟩ := hdx hb.2 hs.stops ht.stops (List.cons.inj hoperand).2
    exact ⟨rfl, hrest⟩
  · exact absurd (List.cons.inj heq).1 (by decide)
  · exact absurd (List.cons.inj heq).1 (by decide)

theorem closes_deref (hn : e.HasPlainNames) (hdx : x.Delimits e) : (deref x).Closes e := by
  intro b s t hb hs ht heq
  rw [deref_append] at heq
  rcases isCompound_cases b with hb' | ⟨op', x', y', rfl⟩ | ⟨type', x', rfl⟩ | ⟨x', rfl⟩ | ⟨x', rfl⟩
  · rw [← operand_of_not_isCompound hb'] at heq
    exact absurd heq.symm (operand_append_ne_star hn hb)
  · rw [binary_append] at heq
    exact absurd heq.symm (operand_append_ne_star hn hb.2.1)
  · exact absurd (List.cons.inj heq).1 (by decide)
  · obtain ⟨rfl, hrest⟩ := hdx (b := x') hb hs.stops ht.stops (List.cons.inj heq).2
    exact ⟨rfl, hrest⟩
  · exact absurd (List.cons.inj heq).1 (by decide)

theorem closes_new (hn : e.HasPlainNames) (hdx : x.Delimits e) : (new x).Closes e := by
  intro b s t hb hs ht heq
  rw [new_append] at heq
  rcases isCompound_cases b with hb' | ⟨op', x', y', rfl⟩ | ⟨type', x', rfl⟩ | ⟨x', rfl⟩ | ⟨x', rfl⟩
  · rw [← operand_of_not_isCompound hb'] at heq
    exact absurd heq.symm (operand_append_ne_new hn hb ht.stops)
  · rw [binary_append] at heq
    exact absurd heq.symm (operand_append_ne_new hn hb.2.1 (stops_blank _))
  · exact absurd (List.cons.inj heq).1 (by decide)
  · exact absurd (List.cons.inj heq).1 (by decide)
  · obtain ⟨rfl, hrest⟩ := hdx (b := x') hb hs.stops ht.stops (List.cons.inj (List.append_cancel_left heq)).2
    exact ⟨rfl, hrest⟩

theorem delimits_of_isAtom (hn : e.HasPlainNames) (hatom : a.isAtom = true) (ha : a.IsProper e) : a.Delimits e := by
  intro b s t hb hs ht heq
  rw [operand_of_isAtom hatom] at heq
  obtain ⟨hatom', hword, hrest⟩ :=
    isAtom_of_operand_append hn hb ht (isWord_of_isAtom hn hatom ha) hs.isNameRest (.inr hs.ne_open) heq.symm
  exact ⟨eq_of_chars_eq hn hatom hatom' ha hb hword.symm, hrest.symm⟩

theorem delimits_unary (hn : e.HasPlainNames) (ha : (unary op x).IsProper e) (hdx : x.Delimits e) :
    (unary op x).Delimits e := by
  intro b s t hb hs ht heq
  have hlead : ∀ {y : CTerm}, y.IsProper e → ∃ c r, y.operand e = c :: r ∧ c ≠ ' ' := by
    intro y hy
    obtain ⟨c, r, hcr, hblank, -⟩ := exists_head_operand hn hy
    exact ⟨c, r, hcr, hblank⟩
  rcases atom_or_unary_or_compound b with hatom | ⟨op', y, rfl⟩ | hc
  · rw [operand_of_isAtom hatom] at heq
    have hword := isWord_of_isAtom hn hatom hb
    have hunary := (isAtom_of_operand_append hn ha hs hword ht.isNameRest (.inr ht.ne_open) heq).1
    exact absurd hunary nofun
  · obtain ⟨rfl, hoperand⟩ := Operator.before_append_inj ha.1 hb.1 (hlead ha.2) (hlead hb.2) heq
    obtain ⟨rfl, hrest⟩ := hdx hb.2 hs ht hoperand
    exact ⟨rfl, hrest⟩
  · obtain ⟨c, r, hcr, -, -, hopen⟩ := exists_head_operand hn ha
    rw [hcr, operand_of_isCompound hc] at heq
    exact absurd (hopen (List.cons.inj heq).1) nofun

/-- An operand ends at the first blank or closing bracket outside of it. -/
theorem delimits (hn : e.HasPlainNames) (ha : a.IsProper e) : a.Delimits e := by
  induction a with
  | const c => exact delimits_of_isAtom hn rfl ha
  | var n => exact delimits_of_isAtom hn rfl ha
  | unary op x ih => exact delimits_unary hn ha (ih ha.2)
  | binary op x y ihx ihy => exact (closes_binary hn ha.1 ha.2.1 (ihx ha.2.1) (ihy ha.2.2)).delimits hn rfl
  | convert type x ih => exact (closes_convert hn ha.1 (ih ha.2)).delimits hn rfl
  | deref x ih => exact (closes_deref hn (ih ha)).delimits hn rfl
  | new x ih => exact (closes_new hn (ih ha)).delimits hn rfl

theorem eq_of_chars (hn : e.HasPlainNames) (ha : a.IsProper e) (hb : b.IsProper e) (h : a.chars e = b.chars e) :
    a = b := by
  have hcloses : a.Closes e := by
    cases a with
    | binary op x y => exact closes_binary hn ha.1 ha.2.1 (delimits hn ha.2.1) (delimits hn ha.2.2)
    | convert type x => exact closes_convert hn ha.1 (delimits hn ha.2)
    | deref x => exact closes_deref hn (delimits (a := x) hn ha)
    | new x => exact closes_new hn (delimits (a := x) hn ha)
    | _ => exact (delimits hn ha).closes hn ha rfl
  exact (hcloses hb ends_nil ends_nil (congrArg (· ++ []) h)).1

end CTerm

/-! ### Minus signs -/

/-- No two minus signs stand side by side. -/
def NoDecrement (s : List Char) : Prop := s.IsChain fun c d => c ≠ '-' ∨ d ≠ '-'

namespace NoDecrement

variable {c : Char} {s t : List Char}

theorem not_minus_minus (h : NoDecrement s) : ¬ ['-', '-'] <:+: s := by
  intro hinfix
  have hpair : NoDecrement ['-', '-'] := List.IsChain.infix h hinfix
  exact absurd (List.isChain_cons_cons.1 hpair).1 (by decide)

theorem of_notMem (h : '-' ∉ s) : NoDecrement s := by
  induction s with
  | nil => exact .nil
  | cons c s ih =>
    have hc : c ≠ '-' := fun heq => h (heq ▸ List.mem_cons_self)
    exact List.IsChain.cons (ih fun hmem => h (List.mem_cons_of_mem c hmem)) fun _ _ => .inl hc

theorem of_isWord (h : IsWord s) : NoDecrement s :=
  of_notMem fun hmem => absurd (h.2 '-' hmem) (by decide)

theorem cons (hc : c ≠ '-') (hs : NoDecrement s) : NoDecrement (c :: s) := List.IsChain.cons hs fun _ _ => .inl hc

theorem append_cons (hs : NoDecrement s) (hc : c ≠ '-') (ht : NoDecrement t) : NoDecrement (s ++ c :: t) := by
  refine List.IsChain.append hs (ht.cons hc) fun x _ y hy => .inr ?_
  rw [← Option.some.inj hy]
  exact hc

theorem of_int (n : Int) : NoDecrement (toString n).toList := by
  have hdigits : ∀ m : Nat, '-' ∉ Nat.toDigits 10 m := fun m hmem =>
    absurd (Text.isNameRest_of_mem_toDigits hmem) (by decide)
  cases n with
  | ofNat n =>
    rw [Int.ofNat_eq_natCast, Text.toList_toString_ofNat]
    exact of_notMem (hdigits n)
  | negSucc n =>
    rw [Text.toList_toString_negSucc]
    refine List.IsChain.cons (of_notMem (hdigits (n + 1))) fun d hd => .inr ?_
    rintro rfl
    exact hdigits (n + 1) (List.mem_of_head? hd)

theorem of_operator (op : Operator) : NoDecrement op.text.toList := by
  rcases op.mem_known_or_unknown with hop | ⟨n, rfl⟩
  · have hknown : ∀ op ∈ Operator.known, '-' ∉ op.text.toList.tail := by decide
    cases hchars : op.text.toList with
    | nil => exact .nil
    | cons c cs =>
      have htail := hknown op hop
      rw [hchars] at htail
      refine List.IsChain.cons (of_notMem htail) fun d hd => .inr ?_
      rintro rfl
      exact htail (List.mem_of_head? hd)
  · rw [Operator.toList_text_unknown]
    exact (of_isWord Operator.isWord_unknown).append_cons (by decide) ((of_int n).append_cons (by decide) .nil)

theorem of_isTypeName {name : String} (h : IsTypeName name) : NoDecrement name.toList := by
  induction h with
  | word hw => exact of_isWord (Text.isNameRest_of_isName (IsTypeName.isName_of_mem_typeWords hw))
  | @array name _ ih =>
    have harray := IsTypeName.array_append name []
    rw [List.append_nil] at harray
    rw [harray]
    exact (of_isWord IsTypeName.isWord_arr_t).append_cons (by decide) (ih.append_cons (by decide) .nil)

theorem before {op : Operator} (hop : op.isUnary = true) (hs : NoDecrement s) : NoDecrement (op.before s) := by
  rcases Operator.isUnary_cases hop with rfl | rfl | rfl | ⟨n, rfl⟩
  · rw [Operator.before_neg]
    -- a blank keeps the two signs apart
    split
    · refine List.IsChain.cons (hs.cons (by decide)) fun d hd => .inr ?_
      rw [← Option.some.inj hd]
      decide
    · next hhead =>
      refine List.IsChain.cons hs fun d hd => .inr ?_
      rintro rfl
      exact hhead hd
  · exact hs.cons (by decide)
  · exact hs.cons (by decide)
  · rw [Operator.before_unknown]
    exact (of_isWord Operator.isWord_unknown).append_cons (by decide) ((of_int n).append_cons (by decide) hs)

theorem enclose (hs : NoDecrement s) (a : CTerm) : NoDecrement (a.enclose s) := by
  unfold CTerm.enclose
  split
  · exact (hs.append_cons (by decide) .nil).cons (by decide)
  · exact hs

end NoDecrement

theorem CTerm.noDecrement_chars {e : Emitter} {a : CTerm} (hn : e.HasPlainNames) (ha : a.IsProper e) :
    NoDecrement (a.chars e) := by
  induction a with
  | const c => exact .of_isWord (isWord_of_isAtom hn rfl ha)
  | var n => exact .of_isWord (isWord_of_isAtom hn rfl ha)
  | unary op x ih => exact ((ih ha.2).enclose x).before ha.1
  | binary op x y ihx ihy =>
    have hright := (NoDecrement.of_operator op).append_cons (by decide : ' ' ≠ '-') ((ihy ha.2.2).enclose y)
    exact ((ihx ha.2.1).enclose x).append_cons (by decide) hright
  | convert type x ih =>
    have hoperand := ((ih ha.2).enclose x).cons (by decide : ' ' ≠ '-')
    exact ((NoDecrement.of_isTypeName ha.1).append_cons (by decide) hoperand).cons (by decide)
  | deref x ih => exact ((ih ha).enclose x).cons (by decide)
  | new x ih => exact (NoDecrement.of_isWord isWord_new).append_cons (by decide) ((ih ha).enclose x)

/-- **Printed expressions are unambiguous.**  Expressions made of constants, variables, operators of the right arity,
conversions to types with a C name, dereferences and `new` are printed without a fault, and two of them have the same
text exactly if they have the same term.  No text holds a decrement. -/
theorem printed_expressions_unambiguous {e : Emitter} (hn : e.HasPlainNames) {x y : Expr} {a b : CTerm}
    (hx : x.cTerm? e = some a) (hy : y.cTerm? e = some b) :
    ∃ s t, (x.emit e).run none = .ok (s, none) ∧ (y.emit e).run none = .ok (t, none) ∧ (s = t ↔ a = b) ∧
      ¬ ['-', '-'] <:+: s.toList ∧ ¬ ['-', '-'] <:+: t.toList := by
  obtain ⟨s, hs, hstext, -, ha⟩ := Expr.yields_of_cTerm? hx
  obtain ⟨t, ht, httext, -, hb⟩ := Expr.yields_of_cTerm? hy
  refine ⟨s, t, hs, ht, ⟨fun h => ?_, ?_⟩, ?_, ?_⟩
  · have hchars : a.chars e = b.chars e := by rw [← hstext, ← httext, h]
    exact CTerm.eq_of_chars hn ha hb hchars
  · rintro rfl
    exact String.toList_inj.1 (hstext.trans httext.symm)
  · rw [hstext]
    exact (CTerm.noDecrement_chars hn ha).not_minus_minus
  · rw [httext]
    exact (CTerm.noDecrement_chars hn hb).not_minus_minus

/-- A function with a variable that is called like a type. -/
def typeLikeEmitter : Emitter where
  decl := { name := "f", locals := [⟨"int64_t", .int⟩, ⟨"x", .int⟩] }
  result := none
  selector := .default

/-- Negating `-3` gives one text, whether `-3` is a constant or a negation; and a conversion of `-x` to `int64_t` is no
subtraction from the variable of that name. -/
theorem printed_expressions_unambiguous_negation :
    typeLikeEmitter.HasPlainNames ∧
      (∃ s, ((Expr.unary .neg (.const (.int (-3)))).emit typeLikeEmitter).run none = .ok (s, none) ∧
        ((Expr.unary .neg (.unary .neg (.const (.int 3)))).emit typeLikeEmitter).run none = .ok (s, none) ∧
        ¬ ['-', '-'] <:+: s.toList) ∧
      ∃ s t, ((Expr.convert .int (.unary .neg (.var 1))).emit typeLikeEmitter).run none = .ok (s, none) ∧
        ((Expr.binary .sub (.var 0) (.var 1)).emit typeLikeEmitter).run none = .ok (t, none) ∧ s ≠ t := by
  have hn : typeLikeEmitter.HasPlainNames := ⟨by decide, by decide, by decide⟩
  refine ⟨hn, ?_, ?_⟩
  · obtain ⟨s, t, hs, ht, heq, hno, -⟩ :=
      printed_expressions_unambiguous hn (x := .unary .neg (.const (.int (-3))))
        (y := .unary .neg (.unary .neg (.const (.int 3)))) rfl rfl
    obtain rfl := heq.2 rfl
    exact ⟨s, hs, ht, hno⟩
  · obtain ⟨s, t, hs, ht, heq, -⟩ :=
      printed_expressions_unambiguous hn (x := .convert .int (.unary .neg (.var 1)))
        (y := .binary .sub (.var 0) (.var 1)) rfl rfl
    exact ⟨s, t, hs, ht, fun h => nomatch heq.1 h⟩

end Narrowing
