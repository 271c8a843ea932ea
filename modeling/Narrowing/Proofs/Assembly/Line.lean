import Narrowing.Assembly.Printer
import Narrowing.Assembly.Reader
import Narrowing.Proofs.Frame
import Narrowing.Proofs.Text

/-!
# Lines of assembly

A printed line falls apart into the words it was made of (`IsLineOf`), and the words are read as the code that was
printed (`spelled_of_isExpressible`).
-/

namespace Narrowing

/-! ### What assembly can express -/

/-- No slot, or a slot whose number fits in a signed word of 64 bits. -/
def isExpressibleSlot (n : Slot) : Bool := n == noSlot || (decide (0 ≤ n) && Text.isInt64 n)

mutual

/-- The code can be written in assembly: its slots are in range, its labels are names, and every loop has a body. -/
def Code.isExpressible : Code → Bool
  | .const t _ => isExpressibleSlot t
  | .assign t a => isExpressibleSlot t && isExpressibleSlot a
  | .goto l => Text.isName l
  | .branch a op b l =>
    isExpressibleSlot a && Comparator.known.contains op && isExpressibleSlot b && Text.isName l
  | .switch a arms d => isExpressibleSlot a && arms.all (Text.isName ·.target) && Text.isName d
  | .label name => Text.isName name
  | .nop => true
  | .fail => true
  | .debug a => isExpressibleSlot a
  | .ret as => as.all isExpressibleSlot
  | .loop body => areExpressible body
  | .bareLoop => false
  | .compute _ t as aux =>
    isExpressibleSlot t && as.all isExpressibleSlot && (aux.isEmpty || Text.isDottedName aux)
  | .hole => false

/-- Each code of the block can be written in assembly. -/
def areExpressible : List Code → Bool
  | [] => true
  | c :: rest => c.isExpressible && areExpressible rest

end

theorem areExpressible_append {b b' : List Code} :
    areExpressible (b ++ b') = (areExpressible b && areExpressible b') := by
  induction b with
  | nil => simp [areExpressible]
  | cons c b ih => simp [areExpressible, ih, Bool.and_assoc]

namespace Assembly

/-! ### The words of a line -/

/-- A character between words. -/
def isSeparator (c : Char) : Bool := Text.isBlank c || c == ','

/-- A text that a line keeps together. -/
def isWord (w : String) : Bool := !w.toList.isEmpty && w.toList.all (!isSeparator ·)

theorem isWord_iff {w : String} : isWord w = true ↔ w.toList ≠ [] ∧ ∀ c ∈ w.toList, isSeparator c = false := by
  simp [isWord]

theorem lineWords_append_separator {c : Char} (hc : isSeparator c = true) (x y : List Char) :
    lineWords (x ++ c :: y) = lineWords x ++ lineWords y := by
  have hblank : Text.isBlank (if c == ',' then ' ' else c) = true := by
    split
    · rfl
    · next hne => simpa [isSeparator, hne] using hc
  simp only [lineWords, List.map_append, List.map_cons, Text.words_append_blank hblank]

theorem map_comma_of_solid {w : List Char} (hw : ∀ c ∈ w, isSeparator c = false) :
    w.map (fun c => if c == ',' then ' ' else c) = w := by
  refine (List.map_congr_left fun c hc => ?_).trans (List.map_id w)
  have hne : (c == ',') = false := (Bool.or_eq_false_iff.1 (hw c hc)).2
  simp [hne]

theorem lineWords_word {w : String} (hw : isWord w = true) : lineWords w.toList = [w] := by
  obtain ⟨hne, hsolid⟩ := isWord_iff.1 hw
  have hblank : ∀ c ∈ w.toList, Text.isBlank c = false := fun c hc => (Bool.or_eq_false_iff.1 (hsolid c hc)).1
  rw [lineWords, map_comma_of_solid hsolid, Text.words_of_solid hne hblank]
  simp

theorem blank_map_comma {x : List Char} (hx : ∀ c ∈ x, Text.isBlank c = true) :
    ∀ c ∈ x.map (fun c => if c == ',' then ' ' else c), Text.isBlank c = true := by
  intro c hc
  obtain ⟨d, hd, rfl⟩ := List.mem_map.1 hc
  split
  · rfl
  · exact hx d hd

/-- The blanks around a line hold no words. -/
theorem lineWords_trim (s : List Char) : lineWords (Text.trim s) = lineWords s := by
  obtain ⟨pre, post, hs, hpre, hpost⟩ := Text.exists_trim s
  have hwords : lineWords s = lineWords (pre ++ (Text.trim s ++ post)) := congrArg lineWords hs
  rw [hwords, lineWords, lineWords, List.map_append, List.map_append, Text.words_blanks_append (blank_map_comma hpre),
    Text.words_append_blanks (blank_map_comma hpost)]

/-- A line is read by its words, unless the first one starts like a comment. -/
theorem readLine_of_words {line : List Char} {first : String} {args : List String}
    (hwords : lineWords line = first :: args) (hfirst : first.toList.head? ≠ some '/') :
    readLine line = (readWords first args).mapError .complaint := by
  have htrim : lineWords (Text.trim line) = first :: args := (lineWords_trim line).trans hwords
  have hne : (Text.trim line).isEmpty = false := by
    cases hs : Text.trim line with
    | nil => rw [hs] at htrim; cases htrim
    | cons => rfl
  have hcomment : ['/', '/'].isPrefixOf (Text.trim line) = false := by
    cases hs : Text.trim line with
    | nil => rfl
    | cons c s =>
      rw [hs] at htrim
      have hc : c ≠ '/' := by
        rintro rfl
        obtain ⟨w, ws, hw⟩ := Text.words_cons_of_solid (c := '/') rfl (s.map fun c => if c == ',' then ' ' else c)
        have hhead : lineWords ('/' :: s) = String.ofList ('/' :: w) :: ws.map String.ofList :=
          congrArg (List.map String.ofList) hw
        rw [htrim] at hhead
        obtain ⟨rfl, -⟩ := List.cons.inj hhead
        exact hfirst (by simp)
      simp [List.isPrefixOf, hc.symm]
  simp only [readLine, hne, hcomment, htrim, Bool.or_self, Bool.false_eq_true, if_false]

/-! ### Words and what they stand for -/

theorem isSeparator_of_isNameRest {c : Char} (hc : Text.isNameRest c = true) : isSeparator c = false := by
  have hcomma : c ≠ ',' := by
    rintro rfl
    exact absurd hc (by decide)
  simp [isSeparator, Text.isBlank_of_isNameRest hc, hcomma]

theorem isWord_of_isName {w : String} (h : Text.isName w = true) : isWord w = true := by
  obtain ⟨hne, hrest⟩ := Text.isNameRest_of_isName h
  exact isWord_iff.2 ⟨hne, fun c hc => isSeparator_of_isNameRest (hrest c hc)⟩

theorem isExpressibleSlot_iff {n : Slot} :
    isExpressibleSlot n = true ↔ n = noSlot ∨ ∃ m : Nat, n = m ∧ Text.isInt64 m = true := by
  simp only [isExpressibleSlot, Bool.or_eq_true, Bool.and_eq_true, beq_iff_eq, decide_eq_true_eq]
  refine or_congr_right ⟨fun h => ?_, ?_⟩
  · obtain ⟨m, rfl⟩ := Int.eq_ofNat_of_zero_le h.1
    exact ⟨m, rfl, h.2⟩
  · rintro ⟨m, rfl, hm⟩
    exact ⟨Int.natCast_nonneg m, hm⟩

theorem toList_slotText_natCast (m : Nat) : (slotText (m : Int)).toList = '%' :: Nat.toDigits 10 m := by
  have hne : (m : Int) ≠ noSlot := by unfold noSlot; omega
  rw [slotText, if_neg hne, String.toList_append, Text.toList_toString_ofNat]
  rfl

theorem isWord_slotText {n : Slot} (h : isExpressibleSlot n = true) : isWord (slotText n) = true := by
  rcases isExpressibleSlot_iff.1 h with rfl | ⟨m, rfl, -⟩
  · rfl
  · rw [isWord_iff, toList_slotText_natCast]
    refine ⟨List.cons_ne_nil _ _, fun c hc => ?_⟩
    rcases List.mem_cons.1 hc with rfl | hc
    · rfl
    · exact isSeparator_of_isNameRest (Text.isNameRest_of_mem_toDigits hc)

/-- A printed slot is read as that slot. -/
theorem readSlot_slotText {n : Slot} (h : isExpressibleSlot n = true) : readSlot (slotText n) = .ok n := by
  rcases isExpressibleSlot_iff.1 h with rfl | ⟨m, rfl, hint⟩
  · rfl
  · have hread : Text.readInt64 (Nat.toDigits 10 m) = some (m : Int) := by
      have hvalue := Text.readInt_toString (m : Int)
      rw [Text.toList_toString_ofNat] at hvalue
      rw [Text.readInt64, hvalue, Option.filter_some, if_pos hint]
    have hsign : ((Nat.toDigits 10 m).head? == some '+') = false := by
      refine beq_eq_false_iff_ne.2 fun hhead => ?_
      exact absurd (Text.isNameRest_of_mem_toDigits (List.mem_of_head? hhead)) (by decide)
    have hneg : decide ((m : Int) < 0) = false := decide_eq_false (by omega)
    simp only [readSlot, toList_slotText_natCast, hread, hsign, hneg, Bool.or_self, Bool.false_eq_true, if_false]

theorem readLabel_eq_ok {w l : String} : readLabel w = .ok l ↔ Text.isName l = true ∧ w = l := by
  unfold readLabel
  split
  · next hw =>
    refine ⟨fun h => ?_, fun h => by rw [h.2]⟩
    cases h
    exact ⟨hw, rfl⟩
  · next hw =>
    constructor
    · intro h; cases h
    · intro h; exact absurd (h.2 ▸ h.1) hw

theorem isWord_toString (n : Int) : isWord (toString n) = true := by
  rw [isWord_iff]
  cases n with
  | ofNat n =>
    rw [Int.ofNat_eq_natCast, Text.toList_toString_ofNat]
    exact ⟨Nat.toDigits_ne_nil, fun c hc => isSeparator_of_isNameRest (Text.isNameRest_of_mem_toDigits hc)⟩
  | negSucc n =>
    rw [Text.toList_toString_negSucc]
    refine ⟨List.cons_ne_nil _ _, fun c hc => ?_⟩
    rcases List.mem_cons.1 hc with rfl | hc
    · rfl
    · exact isSeparator_of_isNameRest (Text.isNameRest_of_mem_toDigits hc)

theorem isWord_constantText (v : Constant) : isWord v.text = true := by
  cases v with
  | null => rfl
  | bool b => cases b <;> rfl
  | int n => exact isWord_toString n

/-- A printed constant is read as that constant. -/
theorem readConstant_text (v : Constant) : readConstant v.text = .ok v := by
  cases v with
  | null => rfl
  | bool b => cases b <;> rfl
  | int n =>
    -- no printed integer is one of the three keywords, for a keyword is not read as an integer
    have hread : Text.readInt (toString n).toList = some n := Text.readInt_toString n
    show readConstant (toString n) = .ok (.int n)
    unfold readConstant
    split
    · next hw => rw [hw] at hread; cases (show (none : Option Int) = some n from hread)
    · next hw => rw [hw] at hread; cases (show (none : Option Int) = some n from hread)
    · next hw => rw [hw] at hread; cases (show (none : Option Int) = some n from hread)
    · rw [hread]

theorem divideArm_append {value target : String} (h : ':' ∉ target.toList) :
    divideArm (value ++ ":" ++ target) = some (value, target) := by
  have hback : (value ++ ":" ++ target).toList.reverse = target.toList.reverse ++ ':' :: value.toList.reverse := by
    simp
  have hstop : ∀ c ∈ target.toList.reverse, (c != ':') = true := by
    intro c hc
    have hne : c ≠ ':' := fun hcc => h (hcc ▸ List.mem_reverse.1 hc)
    simpa using hne
  rw [divideArm, hback]
  simp only [List.dropWhile_append_of_pos hstop, List.takeWhile_append_of_pos hstop, List.dropWhile_cons,
    List.takeWhile_cons, bne_self_eq_false, Bool.false_eq_true, if_false, List.append_nil, List.reverse_reverse,
    String.ofList_toList]

theorem divideMnemonic_append {word aux : String} (h : '.' ∉ word.toList) :
    divideMnemonic (word ++ "." ++ aux) = (word, some aux) := by
  have htext : (word ++ "." ++ aux).toList = word.toList ++ '.' :: aux.toList := by simp
  have hstop : ∀ c ∈ word.toList, (c != '.') = true := by
    intro c hc
    have hne : c ≠ '.' := fun hcc => h (hcc ▸ hc)
    simpa using hne
  rw [divideMnemonic, htext]
  simp only [List.dropWhile_append_of_pos hstop, List.takeWhile_append_of_pos hstop, List.dropWhile_cons,
    List.takeWhile_cons, bne_self_eq_false, Bool.false_eq_true, if_false, List.append_nil, String.ofList_toList]

theorem divideMnemonic_of_notMem {word : String} (h : '.' ∉ word.toList) : divideMnemonic word = (word, none) := by
  have hstop : word.toList.dropWhile (· != '.') = [] := by
    refine List.dropWhile_eq_nil_iff.2 fun c hc => ?_
    have hne : c ≠ '.' := fun hcc => h (hcc ▸ hc)
    simpa using hne
  rw [divideMnemonic, hstop]

/-! ### Printed lines -/

/-- The text is one line made of the given words. -/
structure IsLineOf (ws : List String) (s : String) : Prop where
  words : lineWords s.toList = ws
  no_break : ∀ c ∈ s.toList, c ≠ '\n' ∧ c ≠ '\r'

namespace IsLineOf

theorem word (w : String) (hw : isWord w = true) : IsLineOf [w] w := by
  refine ⟨lineWords_word hw, fun c hc => ?_⟩
  have hsolid : isSeparator c = false := (isWord_iff.1 hw).2 c hc
  constructor
  · rintro rfl; exact absurd hsolid (by decide)
  · rintro rfl; exact absurd hsolid (by decide)

/-- Lines are joined by a blank. -/
theorem append {ws vs : List String} {x y : String} (hx : IsLineOf ws x) (hy : IsLineOf vs y) :
    IsLineOf (ws ++ vs) (x ++ " " ++ y) := by
  have htext : (x ++ " " ++ y).toList = x.toList ++ ' ' :: y.toList := by simp
  refine ⟨?_, fun c hc => ?_⟩
  · rw [htext, lineWords_append_separator rfl, hx.words, hy.words]
  · rw [htext, List.mem_append, List.mem_cons] at hc
    rcases hc with hc | rfl | hc
    · exact hx.no_break c hc
    · decide
    · exact hy.no_break c hc

theorem append_comma {ws vs : List String} {x y : String} (hx : IsLineOf ws x) (hy : IsLineOf vs y) :
    IsLineOf (ws ++ vs) (x ++ ", " ++ y) := by
  have htext : (x ++ ", " ++ y).toList = x.toList ++ ',' :: ([] ++ ' ' :: y.toList) := by simp
  refine ⟨?_, fun c hc => ?_⟩
  · rw [htext, lineWords_append_separator rfl, lineWords_append_separator rfl, hx.words, hy.words]
    rfl
  · rw [htext, List.nil_append, List.mem_append, List.mem_cons, List.mem_cons] at hc
    rcases hc with hc | rfl | rfl | hc
    · exact hx.no_break c hc
    · decide
    · decide
    · exact hy.no_break c hc

theorem slotTexts {n : Slot} {ns : List Slot} (h : ∀ m ∈ n :: ns, isExpressibleSlot m = true) :
    IsLineOf ((n :: ns).map slotText) (slotTexts (n :: ns)) := by
  induction ns generalizing n with
  | nil => exact word _ (isWord_slotText (h n List.mem_cons_self))
  | cons m ns ih =>
    have hrest := ih fun k hk => h k (List.mem_cons_of_mem n hk)
    have hfirst := word _ (isWord_slotText (h n List.mem_cons_self))
    have htext : Narrowing.slotTexts (n :: m :: ns) = slotText n ++ ", " ++ Narrowing.slotTexts (m :: ns) :=
      String.intercalate_cons_cons
    rw [htext]
    exact hfirst.append_comma hrest

end IsLineOf

/-! ### Reading words -/

theorem mapM_readSlot {ns : List Slot} (h : ∀ n ∈ ns, isExpressibleSlot n = true) :
    (ns.map slotText).mapM readSlot = .ok ns :=
  mapM_map_eq_ok fun n hn => readSlot_slotText (h n hn)

/-- An arm of a switch as a word. -/
def armText (arm : Arm) : String := arm.value.text ++ ":" ++ arm.target

theorem colon_notMem_of_isName {w : String} (h : Text.isName w = true) : ':' ∉ w.toList := fun hc =>
  absurd ((Text.isNameRest_of_isName h).2 ':' hc) (by decide)

theorem isWord_append_colon {value target : String} (hv : isWord value = true) (ht : Text.isName target = true) :
    isWord (value ++ ":" ++ target) = true := by
  have htext : (value ++ ":" ++ target).toList = value.toList ++ ':' :: target.toList := by simp
  rw [isWord_iff, htext]
  refine ⟨by simp, fun c hc => ?_⟩
  rw [List.mem_append, List.mem_cons] at hc
  rcases hc with hc | rfl | hc
  · exact (isWord_iff.1 hv).2 c hc
  · rfl
  · exact isSeparator_of_isNameRest ((Text.isNameRest_of_isName ht).2 c hc)

/-- The arms of a switch and its default are read back. -/
theorem readArms_armText {arms : List Arm} {d : String} (harms : ∀ arm ∈ arms, Text.isName arm.target = true)
    (hd : Text.isName d = true) : readArms (arms.map armText ++ ["default" ++ ":" ++ d]) = .ok (arms, d) := by
  induction arms with
  | nil =>
    have hdivide : divideArm ("default" ++ ":" ++ d) = some ("default", d) :=
      divideArm_append (colon_notMem_of_isName hd)
    rw [List.map_nil, List.nil_append, readArms, hdivide]
    exact bind_eq_ok.2 ⟨d, readLabel_eq_ok.2 ⟨hd, rfl⟩, rfl⟩
  | cons arm arms ih =>
    have harm : Text.isName arm.target = true := harms arm List.mem_cons_self
    have hdivide : divideArm (armText arm) = some (arm.value.text, arm.target) :=
      divideArm_append (colon_notMem_of_isName harm)
    have hrest := ih fun a ha => harms a (List.mem_cons_of_mem arm ha)
    have hmore : (arms.map armText ++ ["default" ++ ":" ++ d]).isEmpty = false := by simp
    rw [List.map_cons, List.cons_append, readArms, hdivide]
    simp only [hmore, Bool.false_eq_true, if_false]
    exact bind_eq_ok.2 ⟨_, readLabel_eq_ok.2 ⟨harm, rfl⟩,
      bind_eq_ok.2 ⟨_, readConstant_text arm.value, bind_eq_ok.2 ⟨_, hrest, rfl⟩⟩⟩

/-- The words that start a line of their own form. -/
def keywords : List String :=
  ["loop", "\x7d", "const", "assign", "goto", "if", "switch", "nop", "fail", "debug", "return"]

theorem readWords_of_notMem {word : String} (h : word ∉ keywords) (args : List String) :
    readWords word args =
      if args.isEmpty && word.toList.getLast? == some ':' then do
        return .code (.label (← readLabel (String.ofList word.toList.dropLast)))
      else do return .code (← readOperation word args) := by
  unfold readWords
  split
  all_goals first | rfl | exact absurd (by decide) h

theorem readWords_label {name : String} (h : Text.isName name = true) :
    readWords (name ++ ":") [] = .ok (.code (.label name)) := by
  have htext : (name ++ ":").toList = name.toList ++ [':'] := by simp
  have hlast : (name ++ ":").toList.getLast? = some ':' := by rw [htext, List.getLast?_concat]
  have hkeyword : name ++ ":" ∉ keywords := by
    intro hmem
    have hends : ∀ k ∈ keywords, k.toList.getLast? ≠ some ':' := by decide
    exact hends _ hmem hlast
  have hname : String.ofList (name ++ ":").toList.dropLast = name := by
    rw [htext, List.dropLast_concat, String.ofList_toList]
  rw [readWords_of_notMem hkeyword, hlast, hname]
  exact bind_eq_ok.2 ⟨name, readLabel_eq_ok.2 ⟨h, rfl⟩, rfl⟩

/-- The first word of a code that computes a value. -/
def operationText (m : Mnemonic) (aux : String) : String := m.text ++ (if aux.isEmpty then "" else "." ++ aux)

theorem Mnemonic.ofText?_text (m : Mnemonic) : Mnemonic.ofText? m.text = some m := by
  cases m <;> rfl

theorem Comparator.ofText?_text {op : Comparator} (h : op ∈ Comparator.known) : Comparator.ofText? op.text = some op := by
  revert op
  decide

theorem point_notMem_mnemonic (m : Mnemonic) : '.' ∉ m.text.toList := by
  cases m <;> decide

theorem divideMnemonic_operationText (m : Mnemonic) (aux : String) :
    divideMnemonic (operationText m aux) = (m.text, if aux.isEmpty then none else some aux) := by
  unfold operationText
  split
  · rw [String.append_empty]
    exact divideMnemonic_of_notMem (point_notMem_mnemonic m)
  · rw [← String.append_assoc]
    exact divideMnemonic_append (point_notMem_mnemonic m)

theorem operationText_notMem_keywords (m : Mnemonic) (aux : String) : operationText m aux ∉ keywords := by
  intro hmem
  have hwhole : ∀ k ∈ keywords, divideMnemonic k = (k, none) := by decide
  have hdivide := divideMnemonic_operationText m aux
  rw [hwhole _ hmem] at hdivide
  have htext : operationText m aux = m.text := congrArg Prod.fst hdivide
  have hother : m.text ∉ keywords := by cases m <;> decide
  exact hother (htext ▸ hmem)

theorem readOperandName_isEmpty {aux : String} (haux : aux.isEmpty = true ∨ Text.isDottedName aux = true) :
    readOperandName (if aux.isEmpty then none else some aux) = .ok aux := by
  cases hempty : aux.isEmpty with
  | true => rw [String.isEmpty_iff.1 hempty]; rfl
  | false =>
    have hname : Text.isDottedName aux = true := by simpa [hempty] using haux
    simp only [Bool.false_eq_true, if_false, readOperandName, hname, if_true]

theorem readOperands_slotText (mnemonic : String) {as : List Slot} (has : ∀ a ∈ as, isExpressibleSlot a = true) :
    readOperands mnemonic (if as.isEmpty then [] else "=" :: as.map slotText) = .ok as := by
  cases as with
  | nil => rfl
  | cons a as => exact mapM_readSlot has

theorem readOperation_operationText {m : Mnemonic} {t : Slot} {as : List Slot} {aux : String}
    (ht : isExpressibleSlot t = true) (has : ∀ a ∈ as, isExpressibleSlot a = true)
    (haux : aux.isEmpty = true ∨ Text.isDottedName aux = true) :
    readOperation (operationText m aux) (slotText t :: if as.isEmpty then [] else "=" :: as.map slotText) =
      .ok (.compute m t as aux) := by
  unfold readOperation
  rw [divideMnemonic_operationText]
  refine bind_eq_ok.2 ⟨aux, readOperandName_isEmpty haux, bind_eq_ok.2 ⟨t, readSlot_slotText ht,
    bind_eq_ok.2 ⟨as, readOperands_slotText m.text has, ?_⟩⟩⟩
  rw [Mnemonic.ofText?_text]
  rfl

/-! ### Printed codes -/

theorem isWord_operationText (m : Mnemonic) {aux : String}
    (haux : aux.isEmpty = true ∨ Text.isDottedName aux = true) : isWord (operationText m aux) = true := by
  have hm : isWord m.text = true := by cases m <;> rfl
  unfold operationText
  split
  · rw [String.append_empty]
    exact hm
  · next hne =>
    have hname : Text.isDottedName aux = true := haux.resolve_left hne
    have htext : (m.text ++ ("." ++ aux)).toList = m.text.toList ++ '.' :: aux.toList := by simp
    rw [isWord_iff, htext]
    refine ⟨by simp, fun c hc => ?_⟩
    rw [List.mem_append, List.mem_cons] at hc
    rcases hc with hc | rfl | hc
    · exact (isWord_iff.1 hm).2 c hc
    · rfl
    · rcases Text.isNameRest_of_isDottedName hname c hc with hrest | rfl
      · exact isSeparator_of_isNameRest hrest
      · rfl

theorem head?_operationText (m : Mnemonic) (aux : String) : (operationText m aux).toList.head? ≠ some '/' := by
  obtain ⟨c, cs, hm, hc⟩ : ∃ c cs, m.text.toList = c :: cs ∧ c ≠ '/' := by
    cases m <;> exact ⟨_, _, rfl, by decide⟩
  have htext : (operationText m aux).toList = m.text.toList ++ (if aux.isEmpty then "" else "." ++ aux).toList := by
    simp [operationText]
  rw [htext, hm]
  exact fun hhead => hc (Option.some.inj hhead)

theorem IsLineOf.arms {ws : List String} {x : String} {arms : List Arm} (hx : IsLineOf ws x)
    (harms : ∀ arm ∈ arms, Text.isName arm.target = true) :
    IsLineOf (ws ++ arms.map armText)
      (x ++ String.join (arms.map fun arm => " " ++ arm.value.text ++ ":" ++ arm.target)) := by
  induction arms generalizing ws x with
  | nil => simpa using hx
  | cons arm arms ih =>
    have harm : IsLineOf [armText arm] (armText arm) :=
      .word _ (isWord_append_colon (isWord_constantText arm.value) (harms arm List.mem_cons_self))
    have hrest := ih (hx.append harm) fun a ha => harms a (List.mem_cons_of_mem arm ha)
    have htext : x ++ String.join ((arm :: arms).map fun arm => " " ++ arm.value.text ++ ":" ++ arm.target) =
        x ++ " " ++ armText arm ++ String.join (arms.map fun arm => " " ++ arm.value.text ++ ":" ++ arm.target) := by
      rw [← String.toList_inj]; simp [armText]
    rw [htext, List.map_cons, List.append_cons]
    exact hrest

/-- The text of the code is a line, no comment, whose words are read as the code. -/
def IsSpelled (c : Code) : Prop :=
  ∃ first args, IsLineOf (first :: args) c.text ∧ first.toList.head? ≠ some '/' ∧ readWords first args = .ok (.code c)

section Spelled

variable {t a b : Slot} {as : List Slot} {l : String}

theorem spelled_const (v : Constant) (ht : isExpressibleSlot t = true) : IsSpelled (.const t v) := by
  have htext : (Code.const t v).text = "const" ++ " " ++ (slotText t ++ " " ++ ("=" ++ " " ++ v.text)) := by
    show "const " ++ slotText t ++ " = " ++ v.text = _
    rw [← String.toList_inj]; simp
  have hline := (IsLineOf.word "const" rfl).append ((IsLineOf.word _ (isWord_slotText ht)).append
    ((IsLineOf.word "=" rfl).append (.word _ (isWord_constantText v))))
  refine ⟨"const", [slotText t, "=", v.text], htext ▸ hline, by decide, ?_⟩
  exact bind_eq_ok.2 ⟨t, readSlot_slotText ht, bind_eq_ok.2 ⟨v, readConstant_text v, rfl⟩⟩

theorem spelled_assign (ht : isExpressibleSlot t = true) (ha : isExpressibleSlot a = true) :
    IsSpelled (.assign t a) := by
  have htext : (Code.assign t a).text = "assign" ++ " " ++ (slotText t ++ " " ++ ("=" ++ " " ++ slotText a)) := by
    show "assign " ++ slotText t ++ " = " ++ slotText a = _
    rw [← String.toList_inj]; simp
  have hline := (IsLineOf.word "assign" rfl).append ((IsLineOf.word _ (isWord_slotText ht)).append
    ((IsLineOf.word "=" rfl).append (.word _ (isWord_slotText ha))))
  refine ⟨"assign", [slotText t, "=", slotText a], htext ▸ hline, by decide, ?_⟩
  exact bind_eq_ok.2 ⟨t, readSlot_slotText ht, bind_eq_ok.2 ⟨a, readSlot_slotText ha, rfl⟩⟩

theorem spelled_goto (hl : Text.isName l = true) : IsSpelled (.goto l) := by
  have htext : (Code.goto l).text = "goto" ++ " " ++ l := by
    show "goto " ++ l = _
    rw [← String.toList_inj]; simp
  have hline := (IsLineOf.word "goto" rfl).append (.word _ (isWord_of_isName hl))
  refine ⟨"goto", [l], htext ▸ hline, by decide, ?_⟩
  exact bind_eq_ok.2 ⟨l, readLabel_eq_ok.2 ⟨hl, rfl⟩, rfl⟩

theorem spelled_branch {op : Comparator} (ha : isExpressibleSlot a = true) (hop : op ∈ Comparator.known)
    (hb : isExpressibleSlot b = true) (hl : Text.isName l = true) : IsSpelled (.branch a op b l) := by
  have hword : isWord op.text = true := by
    revert op
    decide
  have htext : (Code.branch a op b l).text =
      "if" ++ " " ++ (slotText a ++ " " ++ (op.text ++ " " ++ (slotText b ++ " " ++ ("goto" ++ " " ++ l)))) := by
    show "if " ++ slotText a ++ " " ++ op.text ++ " " ++ slotText b ++ " goto " ++ l = _
    rw [← String.toList_inj]; simp
  have hline := (IsLineOf.word "if" rfl).append ((IsLineOf.word _ (isWord_slotText ha)).append ((IsLineOf.word _ hword).append
    ((IsLineOf.word _ (isWord_slotText hb)).append ((IsLineOf.word "goto" rfl).append (.word _ (isWord_of_isName hl))))))
  refine ⟨"if", [slotText a, op.text, slotText b, "goto", l], htext ▸ hline, by decide, ?_⟩
  refine bind_eq_ok.2 ⟨a, readSlot_slotText ha, ?_⟩
  rw [Comparator.ofText?_text hop]
  exact bind_eq_ok.2 ⟨b, readSlot_slotText hb, bind_eq_ok.2 ⟨l, readLabel_eq_ok.2 ⟨hl, rfl⟩, rfl⟩⟩

theorem spelled_switch {arms : List Arm} {d : String} (ha : isExpressibleSlot a = true)
    (harms : ∀ arm ∈ arms, Text.isName arm.target = true) (hd : Text.isName d = true) :
    IsSpelled (.switch a arms d) := by
  have htext : (Code.switch a arms d).text = "switch" ++ " " ++ slotText a ++
      String.join (arms.map fun arm => " " ++ arm.value.text ++ ":" ++ arm.target) ++ " " ++ ("default" ++ ":" ++ d) := by
    show "switch " ++ slotText a ++ String.join (arms.map fun arm => " " ++ arm.value.text ++ ":" ++ arm.target) ++
      " default:" ++ d = _
    rw [← String.toList_inj]; simp
  have hdefault : isWord ("default" ++ ":" ++ d) = true := isWord_append_colon rfl hd
  have hline := (((IsLineOf.word "switch" rfl).append (.word _ (isWord_slotText ha))).arms harms).append
    (.word _ hdefault)
  obtain ⟨first, more, hwords⟩ : ∃ first more, arms.map armText ++ ["default" ++ ":" ++ d] = first :: more := by
    cases arms <;> exact ⟨_, _, rfl⟩
  refine ⟨"switch", slotText a :: (arms.map armText ++ ["default" ++ ":" ++ d]), htext ▸ hline, by decide, ?_⟩
  have hread := readArms_armText harms hd
  rw [hwords] at hread ⊢
  exact bind_eq_ok.2 ⟨a, readSlot_slotText ha, bind_eq_ok.2 ⟨(arms, d), hread, rfl⟩⟩

theorem spelled_label (hl : Text.isName l = true) : IsSpelled (.label l) := by
  have hrest := (Text.isNameRest_of_isName hl).2
  have htext : (l ++ ":").toList = l.toList ++ [':'] := by simp
  have hword : isWord (l ++ ":") = true := by
    rw [isWord_iff, htext]
    refine ⟨by simp, fun c hc => ?_⟩
    rcases List.mem_append.1 hc with hc | hc
    · exact isSeparator_of_isNameRest (hrest c hc)
    · rw [List.mem_singleton.1 hc]; rfl
  have hhead : (l ++ ":").toList.head? ≠ some '/' := by
    intro hslash
    rw [htext] at hslash
    rcases List.mem_append.1 (List.mem_of_head? hslash) with hmem | hmem
    · exact absurd (hrest '/' hmem) (by decide)
    · exact absurd hmem (by decide)
  exact ⟨l ++ ":", [], IsLineOf.word _ hword, hhead, readWords_label hl⟩

theorem spelled_debug (ha : isExpressibleSlot a = true) : IsSpelled (.debug a) := by
  have htext : (Code.debug a).text = "debug" ++ " " ++ slotText a := by
    show "debug " ++ slotText a = _
    rw [← String.toList_inj]; simp
  have hline := (IsLineOf.word "debug" rfl).append (.word _ (isWord_slotText ha))
  refine ⟨"debug", [slotText a], htext ▸ hline, by decide, ?_⟩
  exact bind_eq_ok.2 ⟨a, readSlot_slotText ha, rfl⟩

theorem spelled_ret (has : ∀ a ∈ as, isExpressibleSlot a = true) : IsSpelled (.ret as) := by
  have hread : readWords "return" (as.map slotText) = .ok (.code (.ret as)) :=
    bind_eq_ok.2 ⟨as, mapM_readSlot has, rfl⟩
  cases as with
  | nil => exact ⟨"return", [], .word "return" rfl, by decide, hread⟩
  | cons a as =>
    have htext : (Code.ret (a :: as)).text = "return" ++ " " ++ slotTexts (a :: as) := by
      show "return " ++ slotTexts (a :: as) = _
      rw [← String.toList_inj]; simp
    exact ⟨"return", _, htext ▸ (IsLineOf.word "return" rfl).append (.slotTexts has), by decide, hread⟩

theorem spelled_compute (m : Mnemonic) {aux : String} (ht : isExpressibleSlot t = true)
    (has : ∀ a ∈ as, isExpressibleSlot a = true) (haux : aux.isEmpty = true ∨ Text.isDottedName aux = true) :
    IsSpelled (.compute m t as aux) := by
  have hword := IsLineOf.word _ (isWord_operationText m haux)
  have htarget := IsLineOf.word _ (isWord_slotText ht)
  refine ⟨operationText m aux, slotText t :: if as.isEmpty then [] else "=" :: as.map slotText, ?_,
    head?_operationText m aux, ?_⟩
  · cases as with
    | nil =>
      have htext : (Code.compute m t [] aux).text = operationText m aux ++ " " ++ slotText t := by
        exact String.append_empty
      exact htext ▸ hword.append htarget
    | cons a as =>
      have htext : (Code.compute m t (a :: as) aux).text =
          operationText m aux ++ " " ++ (slotText t ++ " " ++ ("=" ++ " " ++ slotTexts (a :: as))) := by
        show operationText m aux ++ " " ++ slotText t ++ (" = " ++ slotTexts (a :: as)) = _
        rw [← String.toList_inj]; simp
      exact htext ▸ hword.append (htarget.append ((IsLineOf.word "=" rfl).append (.slotTexts has)))
  · rw [readWords_of_notMem (operationText_notMem_keywords m aux)]
    exact bind_eq_ok.2 ⟨_, readOperation_operationText ht has haux, rfl⟩

end Spelled

/-- Every code that assembly can express is spelled, apart from loops. -/
theorem spelled_of_isExpressible {c : Code} (hc : c.isExpressible = true) (hloop : ∀ body, c ≠ .loop body) :
    IsSpelled c := by
  cases c with
  | const t v => exact spelled_const v hc
  | assign t a =>
    obtain ⟨ht, ha⟩ := Bool.and_eq_true_iff.1 hc
    exact spelled_assign ht ha
  | goto l => exact spelled_goto hc
  | branch a op b l =>
    simp only [Code.isExpressible, Bool.and_eq_true, List.contains_iff_mem] at hc
    exact spelled_branch hc.1.1.1 hc.1.1.2 hc.1.2 hc.2
  | switch a arms d =>
    simp only [Code.isExpressible, Bool.and_eq_true, List.all_eq_true] at hc
    exact spelled_switch hc.1.1 hc.1.2 hc.2
  | label name => exact spelled_label hc
  | nop => exact ⟨"nop", [], .word _ rfl, by decide, rfl⟩
  | fail => exact ⟨"fail", [], .word _ rfl, by decide, rfl⟩
  | debug a => exact spelled_debug hc
  | ret as =>
    simp only [Code.isExpressible, List.all_eq_true] at hc
    exact spelled_ret hc
  | loop body => exact absurd rfl (hloop body)
  | bareLoop => cases hc
  | compute m t as aux =>
    simp only [Code.isExpressible, Bool.and_eq_true, List.all_eq_true, Bool.or_eq_true] at hc
    exact spelled_compute m hc.1.1 hc.1.2 hc.2
  | hole => cases hc

end Assembly

end Narrowing
