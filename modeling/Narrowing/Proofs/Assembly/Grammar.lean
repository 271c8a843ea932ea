import Mathlib.Data.List.Forall2
import Narrowing.Proofs.Assembly.Line

/-!
# The words of assembly

What the words of a line may be, said without the reader.  Numbers are digits, perhaps behind a sign; slots, constants
and the arms of a switch are made of them; and `SpellsLine` has one rule for each sort of line.  The reader accepts
exactly the lines that are spelled (`readWords_eq_ok_iff`), and so a line is only ever read as a code that assembly can
express (`isExpressible_of_readLine`).
-/

namespace Narrowing

namespace Text

/-! ### Numbers -/

/-- The digits, at least one, are those of the number, perhaps behind zeros. -/
structure SpellsNat (cs : List Char) (n : Nat) : Prop where
  ne_nil : cs ≠ []
  digits : ∀ c ∈ cs, c.isDigit = true
  value : Nat.ofDigitChars 10 cs 0 = n

/-- The digits of the integer, perhaps behind a sign. -/
inductive SpellsInt : List Char → Int → Prop
  | plain {cs : List Char} {n : Nat} (h : SpellsNat cs n) : SpellsInt cs n
  | plus {cs : List Char} {n : Nat} (h : SpellsNat cs n) : SpellsInt ('+' :: cs) n
  | minus {cs : List Char} {n : Nat} (h : SpellsNat cs n) : SpellsInt ('-' :: cs) (-n)

theorem readNat_iff_spellsNat {cs : List Char} {n : Nat} : readNat 10 cs = some n ↔ SpellsNat cs n := by
  constructor
  · intro h
    obtain ⟨hne, hdigits⟩ := isDigit_of_readNat h
    rw [readNat_ten hne hdigits] at h
    exact ⟨hne, hdigits, Option.some.inj h⟩
  · intro h
    rw [readNat_ten h.ne_nil h.digits, h.value]

theorem readInt_iff_spellsInt {cs : List Char} {n : Int} : readInt cs = some n ↔ SpellsInt cs n := by
  constructor
  · intro h
    obtain ⟨m, hm, hsigned⟩ : ∃ m, readNat 10 (splitSign cs).2 = some m ∧ signed (splitSign cs).1 m = n :=
      Option.map_eq_some_iff.1 h
    rcases splitSign_cases cs with ⟨ds, rfl, hsplit⟩ | ⟨ds, rfl, hsplit⟩ | hsplit
    · rw [hsplit] at hm hsigned
      rw [← hsigned]
      exact .plus (readNat_iff_spellsNat.1 hm)
    · rw [hsplit] at hm hsigned
      rw [← hsigned]
      exact .minus (readNat_iff_spellsNat.1 hm)
    · rw [hsplit] at hm hsigned
      rw [← hsigned]
      exact .plain (readNat_iff_spellsNat.1 hm)
  · intro h
    cases h with
    | plain h => simp [readInt, splitSign_of_isDigit h.digits, readNat_iff_spellsNat.2 h, signed]
    | plus h => simp [readInt, splitSign, readNat_iff_spellsNat.2 h, signed]
    | minus h => simp [readInt, splitSign, readNat_iff_spellsNat.2 h, signed]

end Text

/-- The steps for a list return what each step returns. -/
theorem mapM_eq_ok_iff {ε α β : Type} {f : α → Except ε β} {l : List α} {ys : List β} :
    l.mapM f = .ok ys ↔ List.Forall₂ (fun x y => f x = .ok y) l ys := by
  induction l generalizing ys with
  | nil =>
    rw [List.forall₂_nil_left_iff]
    exact ⟨fun h => (Except.ok.inj h).symm, fun h => by rw [h]; rfl⟩
  | cons x l ih =>
    rw [List.mapM_cons, List.forall₂_cons_left_iff, bind_eq_ok]
    constructor
    · rintro ⟨y, hy, h⟩
      obtain ⟨ys', hys', h⟩ := bind_eq_ok.1 h
      exact ⟨y, ys', hy, ih.1 hys', (Except.ok.inj h).symm⟩
    · rintro ⟨y, ys', hy, hys', rfl⟩
      exact ⟨y, hy, bind_eq_ok.2 ⟨ys', ih.2 hys', rfl⟩⟩

namespace Assembly

/-! ### Slots and constants -/

/-- The word names the slot: it is an underscore, or a percent sign and a number of at most 63 bits. -/
inductive SpellsSlot : String → Slot → Prop
  | absent : SpellsSlot "_" noSlot
  | numbered {cs : List Char} {n : Int} (h : Text.SpellsInt cs n) (hplus : cs.head? ≠ some '+') (hpos : 0 ≤ n)
    (hfits : n < 0x8000000000000000) : SpellsSlot (String.ofList ('%' :: cs)) n

/-- The word is the constant. -/
inductive SpellsConstant : String → Constant → Prop
  | yes : SpellsConstant "true" (.bool true)
  | no : SpellsConstant "false" (.bool false)
  | null : SpellsConstant "null" .null
  | int {cs : List Char} {n : Int} (h : Text.SpellsInt cs n) : SpellsConstant (String.ofList cs) (.int n)

theorem readSlot_eq_ok_iff {w : String} {n : Slot} : readSlot w = .ok n ↔ SpellsSlot w n := by
  constructor
  · intro h
    unfold readSlot at h
    split at h
    · next hw =>
      have hword : w = "_" := by rw [← String.ofList_toList (s := w), hw]
      rw [hword, ← Except.ok.inj h]
      exact .absent
    · next digits hw =>
      have hword : w = String.ofList ('%' :: digits) := by rw [← hw, String.ofList_toList]
      split at h
      · next m hread =>
        split at h
        · cases h
        · next hsign =>
          obtain ⟨hint, hfits⟩ := Option.filter_eq_some_iff.1 hread
          simp only [Bool.or_eq_true, decide_eq_true_eq, beq_iff_eq, not_or, Int.not_lt] at hsign
          simp only [Text.isInt64, Bool.and_eq_true, decide_eq_true_eq] at hfits
          rw [hword, ← Except.ok.inj h]
          exact .numbered (Text.readInt_iff_spellsInt.1 hint) hsign.2 hsign.1 hfits.2
      · cases h
    · cases h
  · intro h
    cases h with
    | absent => rfl
    | @numbered cs _ h hplus hpos hfits =>
      have hlow : (-0x8000000000000000 : Int) ≤ n := Int.le_trans (by decide) hpos
      have hread : Text.readInt64 cs = some n := by
        rw [Text.readInt64, Text.readInt_iff_spellsInt.2 h, Option.filter_some]
        simp [Text.isInt64, hlow, hfits]
      have hneg : ¬ n < 0 := Int.not_lt.2 hpos
      simp [readSlot, hread, hneg, hplus]

theorem readConstant_eq_ok_iff {w : String} {v : Constant} : readConstant w = .ok v ↔ SpellsConstant w v := by
  constructor
  · intro h
    unfold readConstant at h
    split at h
    · rw [← Except.ok.inj h]; exact .yes
    · rw [← Except.ok.inj h]; exact .no
    · rw [← Except.ok.inj h]; exact .null
    · split at h
      · next n hread =>
        rw [← Except.ok.inj h, ← String.ofList_toList (s := w)]
        exact .int (Text.readInt_iff_spellsInt.1 hread)
      · cases h
  · intro h
    cases h with
    | yes => rfl
    | no => rfl
    | null => rfl
    | @int cs n h =>
      -- none of the three keywords is a number
      have hread : Text.readInt (String.ofList cs).toList = some n := by
        rw [String.toList_ofList]
        exact Text.readInt_iff_spellsInt.2 h
      unfold readConstant
      split
      · next hw => rw [hw] at hread; cases (show (none : Option Int) = some n from hread)
      · next hw => rw [hw] at hread; cases (show (none : Option Int) = some n from hread)
      · next hw => rw [hw] at hread; cases (show (none : Option Int) = some n from hread)
      · rw [hread]

theorem mapM_readSlot_eq_ok_iff {ws : List String} {ns : List Slot} :
    ws.mapM readSlot = .ok ns ↔ List.Forall₂ SpellsSlot ws ns := by
  rw [mapM_eq_ok_iff]
  exact ⟨.imp fun _ _ => readSlot_eq_ok_iff.1, .imp fun _ _ => readSlot_eq_ok_iff.2⟩

/-! ### Arms -/

/-- The words are the arms of a switch, each a value and a label, and behind them its default. -/
inductive SpellsArms : List String → List Arm → String → Prop
  | default {d : String} (hd : Text.isName d = true) : SpellsArms ["default" ++ ":" ++ d] [] d
  | arm {v l d : String} {c : Constant} {ws : List String} {arms : List Arm} (hv : SpellsConstant v c)
    (hl : Text.isName l = true) (h : SpellsArms ws arms d) : SpellsArms ((v ++ ":" ++ l) :: ws) (⟨c, l⟩ :: arms) d

theorem SpellsArms.ne_nil {ws : List String} {arms : List Arm} {d : String} (h : SpellsArms ws arms d) : ws ≠ [] := by
  cases h <;> exact List.cons_ne_nil _ _

theorem eq_of_divideArm {w value target : String} (h : divideArm w = some (value, target)) :
    w = value ++ ":" ++ target := by
  have hback := List.takeWhile_append_dropWhile (p := (· != ':')) (l := w.toList.reverse)
  unfold divideArm at h
  dsimp only at h
  split at h
  · cases h
  · next c rest hdrop =>
    have hcolon : c = ':' := by
      have := List.head?_dropWhile_not (· != ':') w.toList.reverse
      rw [hdrop] at this
      simpa using this
    rw [hdrop, hcolon] at hback
    have hw : w.toList = rest.reverse ++ ':' :: (w.toList.reverse.takeWhile (· != ':')).reverse := by
      simpa using congrArg List.reverse hback.symm
    obtain ⟨rfl, rfl⟩ := Prod.mk.inj (Option.some.inj h)
    rw [← String.toList_inj]
    simpa using hw

theorem readArms_eq_ok_iff {ws : List String} {arms : List Arm} {d : String} :
    readArms ws = .ok (arms, d) ↔ SpellsArms ws arms d := by
  constructor
  · intro h
    induction ws generalizing arms with
    | nil => cases h
    | cons w ws ih =>
      unfold readArms at h
      split at h
      · cases h
      · next value target hdivide =>
        obtain ⟨l, hl, h⟩ := bind_eq_ok.1 h
        obtain ⟨hname, rfl⟩ := readLabel_eq_ok.1 hl
        rw [eq_of_divideArm hdivide]
        cases ws with
        | nil =>
          rw [List.isEmpty_nil, if_pos rfl] at h
          split at h
          · next hvalue =>
            rw [beq_iff_eq.1 hvalue]
            cases h
            exact .default hname
          · cases h
        | cons w' ws =>
          rw [List.isEmpty_cons, if_neg (by simp)] at h
          obtain ⟨v, hv, h⟩ := bind_eq_ok.1 h
          obtain ⟨⟨arms', d'⟩, hrest, h⟩ := bind_eq_ok.1 h
          cases h
          exact .arm (readConstant_eq_ok_iff.1 hv) hname (ih hrest)
  · intro h
    induction h with
    | @default d hd =>
      rw [readArms, divideArm_append (colon_notMem_of_isName hd)]
      exact bind_eq_ok.2 ⟨d, readLabel_eq_ok.2 ⟨hd, rfl⟩, rfl⟩
    | @arm v l d c ws arms hv hl h ih =>
      have hmore : ws.isEmpty = false := by simpa using h.ne_nil
      rw [readArms, divideArm_append (colon_notMem_of_isName hl)]
      simp only [hmore, Bool.false_eq_true, if_false]
      exact bind_eq_ok.2 ⟨l, readLabel_eq_ok.2 ⟨hl, rfl⟩,
        bind_eq_ok.2 ⟨c, readConstant_eq_ok_iff.2 hv, bind_eq_ok.2 ⟨_, ih, rfl⟩⟩⟩

/-! ### Operations -/

/-- The words behind the target of an operation: none, or an equals sign and at least one slot. -/
inductive SpellsOperands : List String → List Slot → Prop
  | none : SpellsOperands [] []
  | some {w : String} {ws : List String} {ns : List Slot} (h : List.Forall₂ SpellsSlot (w :: ws) ns) :
    SpellsOperands ("=" :: w :: ws) ns

/-- The words are those of an operation: its mnemonic, perhaps with a name behind a point, its target and its
operands. -/
inductive SpellsOperation : List String → Code → Prop
  | intro {m : Mnemonic} {aux t : String} {target : Slot} {ws : List String} {ns : List Slot}
    (haux : aux.isEmpty = true ∨ Text.isDottedName aux = true) (ht : SpellsSlot t target) (h : SpellsOperands ws ns) :
    SpellsOperation (operationText m aux :: t :: ws) (.compute m target ns aux)

theorem readOperands_eq_ok_iff {mnemonic : String} {ws : List String} {ns : List Slot} :
    readOperands mnemonic ws = .ok ns ↔ SpellsOperands ws ns := by
  constructor
  · intro h
    unfold readOperands at h
    split at h
    · rw [← Except.ok.inj h]; exact .none
    · exact .some (mapM_readSlot_eq_ok_iff.1 h)
    · cases h
  · intro h
    cases h with
    | none => rfl
    | some h => exact mapM_readSlot_eq_ok_iff.2 h

theorem isDottedName_of_readOperandName {aux? : Option String} {aux : String} (h : readOperandName aux? = .ok aux) :
    aux.isEmpty = true ∨ Text.isDottedName aux = true := by
  unfold readOperandName at h
  split at h
  · cases h; exact .inl rfl
  · split at h
    · next hname => cases h; exact .inr hname
    · cases h

/-- The parts of a first word make it up again. -/
theorem eq_operationText {word mnemonic aux : String} {aux? : Option String} {m : Mnemonic}
    (hdivide : divideMnemonic word = (mnemonic, aux?)) (haux : readOperandName aux? = .ok aux)
    (hm : Mnemonic.ofText? mnemonic = some m) : word = operationText m aux := by
  have htext : m.text = mnemonic := by simpa using List.find?_some hm
  have hwhole := List.takeWhile_append_dropWhile (p := (· != '.')) (l := word.toList)
  unfold divideMnemonic at hdivide
  split at hdivide
  · next hdrop =>
    obtain ⟨rfl, rfl⟩ := Prod.mk.inj hdivide
    rw [← Except.ok.inj haux, operationText, htext]
    simp
  · next c rest hdrop =>
    have hpoint : c = '.' := by
      have := List.head?_dropWhile_not (· != '.') word.toList
      rw [hdrop] at this
      simpa using this
    obtain ⟨rfl, rfl⟩ := Prod.mk.inj hdivide
    have hname : Text.isDottedName (String.ofList rest) = true ∧ String.ofList rest = aux := by
      unfold readOperandName at haux
      dsimp only at haux
      split at haux
      · next hname => exact ⟨hname, Except.ok.inj haux⟩
      · cases haux
    obtain ⟨hname, rfl⟩ := hname
    have hne : (String.ofList rest).isEmpty = false := by
      cases hempty : (String.ofList rest).isEmpty with
      | false => rfl
      | true => rw [String.isEmpty_iff.1 hempty] at hname; cases hname
    rw [hdrop, hpoint] at hwhole
    rw [operationText, htext, hne, ← String.toList_inj]
    simpa using hwhole.symm

theorem readOperation_eq_ok_iff {word : String} {args : List String} {c : Code} :
    readOperation word args = .ok c ↔ SpellsOperation (word :: args) c := by
  constructor
  · intro h
    unfold readOperation at h
    obtain ⟨aux, haux, h⟩ := bind_eq_ok.1 h
    split at h
    · cases h
    · obtain ⟨t, ht, h⟩ := bind_eq_ok.1 h
      obtain ⟨ns, hns, h⟩ := bind_eq_ok.1 h
      split at h
      · next m hm =>
        rw [eq_operationText rfl haux hm, ← Except.ok.inj h]
        exact .intro (isDottedName_of_readOperandName haux) (readSlot_eq_ok_iff.1 ht) (readOperands_eq_ok_iff.1 hns)
      · cases h
  · intro h
    cases h with
    | @intro m aux t target ws ns haux ht h =>
      unfold readOperation
      rw [divideMnemonic_operationText]
      refine bind_eq_ok.2 ⟨aux, readOperandName_isEmpty haux, bind_eq_ok.2 ⟨target, readSlot_eq_ok_iff.2 ht,
        bind_eq_ok.2 ⟨ns, readOperands_eq_ok_iff.2 h, ?_⟩⟩⟩
      rw [Mnemonic.ofText?_text]
      rfl

/-! ### Lines -/

/-- The words of a line that is neither blank nor a comment. -/
inductive SpellsLine : List String → Line → Prop
  | opens : SpellsLine ["loop", "\x7b"] .opens
  | closes : SpellsLine ["\x7d"] .closes
  | const {t v : String} {target : Slot} {c : Constant} (ht : SpellsSlot t target) (hv : SpellsConstant v c) :
    SpellsLine ["const", t, "=", v] (.code (.const target c))
  | assign {t a : String} {target operand : Slot} (ht : SpellsSlot t target) (ha : SpellsSlot a operand) :
    SpellsLine ["assign", t, "=", a] (.code (.assign target operand))
  | goto {l : String} (hl : Text.isName l = true) : SpellsLine ["goto", l] (.code (.goto l))
  | branch {a b l : String} {left right : Slot} {op : Comparator} (ha : SpellsSlot a left)
    (hop : op ∈ Comparator.known) (hb : SpellsSlot b right) (hl : Text.isName l = true) :
    SpellsLine ["if", a, op.text, b, "goto", l] (.code (.branch left op right l))
  | switch {a d : String} {operand : Slot} {ws : List String} {arms : List Arm} (ha : SpellsSlot a operand)
    (h : SpellsArms ws arms d) : SpellsLine ("switch" :: a :: ws) (.code (.switch operand arms d))
  | label {l : String} (hl : Text.isName l = true) : SpellsLine [l ++ ":"] (.code (.label l))
  | nop : SpellsLine ["nop"] (.code .nop)
  | fail : SpellsLine ["fail"] (.code .fail)
  | debug {a : String} {operand : Slot} (ha : SpellsSlot a operand) : SpellsLine ["debug", a] (.code (.debug operand))
  | ret {ws : List String} {ns : List Slot} (h : List.Forall₂ SpellsSlot ws ns) :
    SpellsLine ("return" :: ws) (.code (.ret ns))
  | operation {ws : List String} {c : Code} (h : SpellsOperation ws c) : SpellsLine ws (.code c)

theorem spellsLine_of_readWords {first : String} {args : List String} {x : Line} (h : readWords first args = .ok x) :
    SpellsLine (first :: args) x := by
  unfold readWords at h
  split at h
  · -- a loop is opened
    split at h
    · next hargs => rw [hargs, ← Except.ok.inj h]; exact .opens
    · cases h
  · -- a loop is closed
    split at h
    · next hargs => rw [List.isEmpty_iff.1 hargs, ← Except.ok.inj h]; exact .closes
    · cases h
  · -- a constant
    split at h
    · obtain ⟨t, ht, h⟩ := bind_eq_ok.1 h
      obtain ⟨v, hv, h⟩ := bind_eq_ok.1 h
      rw [← Except.ok.inj h]
      exact .const (readSlot_eq_ok_iff.1 ht) (readConstant_eq_ok_iff.1 hv)
    · cases h
  · -- a copy
    split at h
    · obtain ⟨t, ht, h⟩ := bind_eq_ok.1 h
      obtain ⟨a, ha, h⟩ := bind_eq_ok.1 h
      rw [← Except.ok.inj h]
      exact .assign (readSlot_eq_ok_iff.1 ht) (readSlot_eq_ok_iff.1 ha)
    · cases h
  · -- a jump
    split at h
    · obtain ⟨l, hl, h⟩ := bind_eq_ok.1 h
      obtain ⟨hname, rfl⟩ := readLabel_eq_ok.1 hl
      rw [← Except.ok.inj h]
      exact .goto hname
    · cases h
  · -- a branch
    split at h
    · obtain ⟨a, ha, h⟩ := bind_eq_ok.1 h
      split at h
      · cases h
      · next op hop =>
        have htext := List.find?_some hop
        rw [beq_iff_eq] at htext
        obtain ⟨b, hb, h⟩ := bind_eq_ok.1 h
        obtain ⟨l, hl, h⟩ := bind_eq_ok.1 h
        obtain ⟨hname, rfl⟩ := readLabel_eq_ok.1 hl
        rw [← htext, ← Except.ok.inj h]
        exact .branch (readSlot_eq_ok_iff.1 ha) (List.mem_of_find?_eq_some hop) (readSlot_eq_ok_iff.1 hb) hname
    · cases h
  · -- a switch
    split at h
    · obtain ⟨a, ha, h⟩ := bind_eq_ok.1 h
      obtain ⟨⟨arms, d⟩, harms, h⟩ := bind_eq_ok.1 h
      rw [← Except.ok.inj h]
      exact .switch (readSlot_eq_ok_iff.1 ha) (readArms_eq_ok_iff.1 harms)
    · cases h
  · split at h
    · next hargs => rw [List.isEmpty_iff.1 hargs, ← Except.ok.inj h]; exact .nop
    · cases h
  · split at h
    · next hargs => rw [List.isEmpty_iff.1 hargs, ← Except.ok.inj h]; exact .fail
    · cases h
  · -- a debugged slot
    split at h
    · obtain ⟨a, ha, h⟩ := bind_eq_ok.1 h
      rw [← Except.ok.inj h]
      exact .debug (readSlot_eq_ok_iff.1 ha)
    · cases h
  · -- a return
    obtain ⟨as, has, h⟩ := bind_eq_ok.1 h
    rw [← Except.ok.inj h]
    exact .ret (mapM_readSlot_eq_ok_iff.1 has)
  · -- a label or an operation
    split at h
    · next hlabel =>
      simp only [Bool.and_eq_true, List.isEmpty_iff, beq_iff_eq] at hlabel
      obtain ⟨l, hl, h⟩ := bind_eq_ok.1 h
      obtain ⟨hname, hl⟩ := readLabel_eq_ok.1 hl
      have hfirst : first = l ++ ":" := by
        rw [← String.toList_inj, ← hl]
        simpa using (List.dropLast_append_getLast? ':' hlabel.2).symm
      rw [hlabel.1, hfirst, ← Except.ok.inj h]
      exact .label hname
    · obtain ⟨c, hc, h⟩ := bind_eq_ok.1 h
      rw [← Except.ok.inj h]
      exact .operation (readOperation_eq_ok_iff.1 hc)

theorem readWords_of_spellsLine {first : String} {args : List String} {x : Line} (h : SpellsLine (first :: args) x) :
    readWords first args = .ok x := by
  cases h with
  | opens => rfl
  | closes => rfl
  | const ht hv => exact bind_eq_ok.2 ⟨_, readSlot_eq_ok_iff.2 ht, bind_eq_ok.2 ⟨_, readConstant_eq_ok_iff.2 hv, rfl⟩⟩
  | assign ht ha => exact bind_eq_ok.2 ⟨_, readSlot_eq_ok_iff.2 ht, bind_eq_ok.2 ⟨_, readSlot_eq_ok_iff.2 ha, rfl⟩⟩
  | goto hl => exact bind_eq_ok.2 ⟨_, readLabel_eq_ok.2 ⟨hl, rfl⟩, rfl⟩
  | branch ha hop hb hl =>
    refine bind_eq_ok.2 ⟨_, readSlot_eq_ok_iff.2 ha, ?_⟩
    rw [Comparator.ofText?_text hop]
    exact bind_eq_ok.2 ⟨_, readSlot_eq_ok_iff.2 hb, bind_eq_ok.2 ⟨_, readLabel_eq_ok.2 ⟨hl, rfl⟩, rfl⟩⟩
  | switch ha h =>
    obtain ⟨w, ws, rfl⟩ := List.exists_cons_of_ne_nil h.ne_nil
    exact bind_eq_ok.2 ⟨_, readSlot_eq_ok_iff.2 ha, bind_eq_ok.2 ⟨_, readArms_eq_ok_iff.2 h, rfl⟩⟩
  | label hl => exact readWords_label hl
  | nop => rfl
  | fail => rfl
  | debug ha => exact bind_eq_ok.2 ⟨_, readSlot_eq_ok_iff.2 ha, rfl⟩
  | ret h => exact bind_eq_ok.2 ⟨_, mapM_readSlot_eq_ok_iff.2 h, rfl⟩
  | operation h =>
    have hread := readOperation_eq_ok_iff.2 h
    cases h with
    | @intro m aux t target ws ns haux ht h =>
      rw [readWords_of_notMem (operationText_notMem_keywords m aux)]
      exact bind_eq_ok.2 ⟨_, hread, rfl⟩

/-- The reader accepts exactly the lines that are spelled. -/
theorem readWords_eq_ok_iff {first : String} {args : List String} {x : Line} :
    readWords first args = .ok x ↔ SpellsLine (first :: args) x :=
  ⟨spellsLine_of_readWords, readWords_of_spellsLine⟩

/-! ### What is spelled can be expressed -/

theorem SpellsSlot.isExpressible {w : String} {n : Slot} (h : SpellsSlot w n) : isExpressibleSlot n = true := by
  cases h with
  | absent => rfl
  | numbered _ _ hpos hfits =>
    have hlow : (-0x8000000000000000 : Int) ≤ n := Int.le_trans (by decide) hpos
    simp [isExpressibleSlot, Text.isInt64, hpos, hlow, hfits]

theorem all_isExpressibleSlot {ws : List String} {ns : List Slot} (h : List.Forall₂ SpellsSlot ws ns) :
    ns.all isExpressibleSlot = true := by
  induction h with
  | nil => rfl
  | cons hslot _ ih => rw [List.all_cons, hslot.isExpressible, ih, Bool.and_self]

theorem SpellsArms.isName {ws : List String} {arms : List Arm} {d : String} (h : SpellsArms ws arms d) :
    arms.all (Text.isName ·.target) = true ∧ Text.isName d = true := by
  induction h with
  | default hd => exact ⟨rfl, hd⟩
  | arm _ hl _ ih => exact ⟨by rw [List.all_cons, hl, ih.1, Bool.and_self], ih.2⟩

theorem SpellsOperation.isExpressible {ws : List String} {c : Code} (h : SpellsOperation ws c) :
    c.isExpressible = true := by
  cases h with
  | @intro m aux t target ws ns haux ht h =>
    have hoperands : ns.all isExpressibleSlot = true := by
      cases h with
      | none => rfl
      | some h => exact all_isExpressibleSlot h
    simp only [Code.isExpressible, ht.isExpressible, hoperands, Bool.and_self, Bool.true_and, Bool.or_eq_true]
    exact haux

theorem SpellsLine.isExpressible {ws : List String} {c : Code} (h : SpellsLine ws (.code c)) :
    c.isExpressible = true := by
  cases h with
  | const ht => exact ht.isExpressible
  | assign ht ha => exact Bool.and_eq_true_iff.2 ⟨ht.isExpressible, ha.isExpressible⟩
  | goto hl => exact hl
  | branch ha hop hb hl =>
    simp only [Code.isExpressible, ha.isExpressible, hb.isExpressible, hl, Bool.and_true, Bool.true_and]
    exact List.contains_iff_mem.2 hop
  | switch ha h =>
    obtain ⟨harms, hd⟩ := h.isName
    simp only [Code.isExpressible, ha.isExpressible, harms, hd, Bool.and_self]
  | label hl => exact hl
  | nop => rfl
  | fail => rfl
  | debug ha => exact ha.isExpressible
  | ret h => exact all_isExpressibleSlot h
  | operation h => exact h.isExpressible

/-- A code that a line is read as can be written in assembly. -/
theorem isExpressible_of_readLine {line : List Char} {c : Code} (h : readLine line = .ok (.code c)) :
    c.isExpressible = true := by
  unfold readLine at h
  dsimp only at h
  split at h
  · cases h
  · split at h
    · cases h
    · exact (readWords_eq_ok_iff.1 (mapError_eq_ok.1 h)).isExpressible

end Assembly

end Narrowing
