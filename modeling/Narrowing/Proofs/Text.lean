import Mathlib.Data.List.TakeWhile
import Narrowing.Text.Blank
import Narrowing.Text.Name
import Narrowing.Text.Numeral

/-!
# Words, lines and numerals of a text

Cutting a text undoes putting it together: a blank parts the words on its two sides (`words_append_blank`), a line
feed ends a line (`lines_flatMap`), and the digits of a number are read as that number (`readInt_toString`).  Other
numerals of a positive number have a plus sign or zeros before these digits (`readInt_eq_some_iff`).
-/

namespace Narrowing.Text

/-! ### Runs -/

/-- A run of characters of one sort ends where another sort begins. -/
theorem run_append_inj {p : Char → Bool} {x y s t : List Char} (hx : ∀ c ∈ x, p c = true) (hy : ∀ c ∈ y, p c = true)
    (hs : ∀ c, s.head? = some c → p c = false) (ht : ∀ c, t.head? = some c → p c = false) (h : x ++ s = y ++ t) :
    x = y ∧ s = t := by
  have hrun : ∀ {w u : List Char}, (∀ c ∈ w, p c = true) → (∀ c, u.head? = some c → p c = false) →
      (w ++ u).takeWhile p = w := by
    intro w u hw hu
    rw [List.takeWhile_append_of_pos hw]
    cases u with
    | nil => simp
    | cons c u => rw [List.takeWhile_cons_of_neg (by simp [hu c rfl]), List.append_nil]
  have hxy : x = y := by rw [← hrun hx hs, h, hrun hy ht]
  rw [hxy] at h
  exact ⟨hxy, List.append_cancel_left h⟩

/-- A text ends at the first character that does not occur in it. -/
theorem append_cons_inj {x y s t : List Char} {c : Char} (hx : c ∉ x) (hy : c ∉ y) (h : x ++ c :: s = y ++ c :: t) :
    x = y ∧ s = t := by
  have hother : ∀ {w : List Char}, c ∉ w → ∀ d ∈ w, (d != c) = true := by
    intro w hw d hd
    have hne : d ≠ c := fun heq => hw (heq ▸ hd)
    simpa using hne
  have hstop : ∀ (u : List Char) (d : Char), (c :: u).head? = some d → (d != c) = false := by
    intro u d hd
    simpa using (Option.some.inj hd).symm
  obtain ⟨hxy, hst⟩ := run_append_inj (hother hx) (hother hy) (hstop s) (hstop t) h
  exact ⟨hxy, (List.cons.inj hst).2⟩

/-! ### Words -/

theorem closeWord_append (w : List Char) (ws vs : List (List Char)) :
    closeWord w (ws ++ vs) = closeWord w ws ++ vs := by
  unfold closeWord
  split <;> rfl

theorem wordsFrom_append_blank {c : Char} (hc : isBlank c = true) (x y : List Char) :
    wordsFrom (x ++ c :: y) = ((wordsFrom x).1, (wordsFrom x).2 ++ words y) := by
  induction x with
  | nil => simp [wordsFrom, words, hc]
  | cons d x ih =>
    simp only [List.cons_append, wordsFrom, ih]
    split
    · rw [closeWord_append]
    · rfl

/-- A blank parts the words before it from the words behind it. -/
theorem words_append_blank {c : Char} (hc : isBlank c = true) (x y : List Char) :
    words (x ++ c :: y) = words x ++ words y := by
  simp only [words.eq_1 (x ++ c :: y), wordsFrom_append_blank hc, closeWord_append]
  rfl

theorem wordsFrom_of_solid {w : List Char} (hw : ∀ c ∈ w, isBlank c = false) : wordsFrom w = (w, []) := by
  induction w with
  | nil => rfl
  | cons c w ih =>
    have hc : isBlank c = false := hw c List.mem_cons_self
    have htail : wordsFrom w = (w, []) := ih fun d hd => hw d (List.mem_cons_of_mem c hd)
    simp [wordsFrom, htail, hc]

/-- A run of characters that are not blank is one word. -/
theorem words_of_solid {w : List Char} (hne : w ≠ []) (hw : ∀ c ∈ w, isBlank c = false) : words w = [w] := by
  simp [words, wordsFrom_of_solid hw, closeWord, hne]

/-- The first word starts where the text does, unless a blank stands there. -/
theorem words_cons_of_solid {c : Char} (hc : isBlank c = false) (s : List Char) :
    ∃ w ws, words (c :: s) = (c :: w) :: ws :=
  ⟨(wordsFrom s).1, (wordsFrom s).2, by simp [words, wordsFrom, hc, closeWord]⟩

theorem words_blanks_append {x : List Char} (hx : ∀ c ∈ x, isBlank c = true) (y : List Char) :
    words (x ++ y) = words y := by
  induction x with
  | nil => rfl
  | cons c x ih =>
    have hc : isBlank c = true := hx c List.mem_cons_self
    have htail : words (x ++ y) = words y := ih fun d hd => hx d (List.mem_cons_of_mem c hd)
    exact (words_append_blank hc [] (x ++ y)).trans htail

theorem words_append_blanks {y : List Char} (hy : ∀ c ∈ y, isBlank c = true) (x : List Char) :
    words (x ++ y) = words x := by
  cases y with
  | nil => rw [List.append_nil]
  | cons c y =>
    have hc : isBlank c = true := hy c List.mem_cons_self
    have hrest : words (y ++ []) = [] := words_blanks_append (fun d hd => hy d (List.mem_cons_of_mem c hd)) []
    rw [List.append_nil] at hrest
    rw [words_append_blank hc, hrest, List.append_nil]

/-- Trimming takes blanks away, and only at the ends. -/
theorem exists_trim (s : List Char) :
    ∃ pre post, s = pre ++ (trim s ++ post) ∧ (∀ c ∈ pre, isBlank c = true) ∧ ∀ c ∈ post, isBlank c = true := by
  have hfront : s = s.takeWhile isBlank ++ s.dropWhile isBlank := List.takeWhile_append_dropWhile.symm
  have hback : s.dropWhile isBlank =
      trim s ++ ((s.dropWhile isBlank).reverse.takeWhile isBlank).reverse := by
    rw [trim, ← List.reverse_append, List.takeWhile_append_dropWhile, List.reverse_reverse]
  refine ⟨s.takeWhile isBlank, _, hfront.trans (congrArg _ hback), ?_, ?_⟩
  · exact fun c hc => List.mem_takeWhile_imp hc
  · exact fun c hc => List.mem_takeWhile_imp (List.mem_reverse.1 hc)

/-! ### Ends -/

/-- Neither the first nor the last character is blank, and there is one. -/
structure HasSolidEnds (s : List Char) : Prop where
  head : ∃ c, s.head? = some c ∧ isBlank c = false
  last : ∃ c, s.getLast? = some c ∧ isBlank c = false

namespace HasSolidEnds

theorem of_solid {s : List Char} (hne : s ≠ []) (h : ∀ c ∈ s, isBlank c = false) : HasSolidEnds s where
  head := ⟨s.head hne, List.head?_eq_some_head hne, h _ (List.head_mem hne)⟩
  last := ⟨s.getLast hne, List.getLast?_eq_some_getLast hne, h _ (List.getLast_mem hne)⟩

theorem single {c : Char} (hc : isBlank c = false) : HasSolidEnds [c] := ⟨⟨c, rfl, hc⟩, ⟨c, rfl, hc⟩⟩

/-- What stands between two texts does not touch the ends. -/
theorem around {x y : List Char} (hx : HasSolidEnds x) (hy : HasSolidEnds y) (middle : List Char) :
    HasSolidEnds (x ++ (middle ++ y)) where
  head := by
    obtain ⟨c, hc, hblank⟩ := hx.head
    exact ⟨c, by rw [List.head?_append, hc]; rfl, hblank⟩
  last := by
    obtain ⟨c, hc, hblank⟩ := hy.last
    exact ⟨c, by rw [← List.append_assoc, List.getLast?_append, hc]; rfl, hblank⟩

theorem append {x y : List Char} (hx : HasSolidEnds x) (hy : HasSolidEnds y) : HasSolidEnds (x ++ y) :=
  hx.around hy []

theorem trim_eq {s : List Char} (h : HasSolidEnds s) : trim s = s := by
  obtain ⟨c, hc, hblank⟩ := h.head
  obtain ⟨d, hd, hblank'⟩ := h.last
  have hfront : s.dropWhile isBlank = s := by
    obtain ⟨rest, rfl⟩ := List.head?_eq_some_iff.1 hc
    exact List.dropWhile_cons_of_neg (by simp [hblank])
  have hback : s.reverse.dropWhile isBlank = s.reverse := by
    rw [← List.head?_reverse] at hd
    obtain ⟨rest, hrest⟩ := List.head?_eq_some_iff.1 hd
    rw [hrest]
    exact List.dropWhile_cons_of_neg (by simp [hblank'])
  rw [trim, hfront, hback, List.reverse_reverse]

end HasSolidEnds

theorem trim_cons_blank {c : Char} (hc : isBlank c = true) (s : List Char) : trim (c :: s) = trim s := by
  rw [trim, List.dropWhile_cons_of_pos hc]
  rfl

theorem isBlank_of_getLast?_trim {s : List Char} {c : Char} (h : (trim s).getLast? = some c) : isBlank c = false := by
  rw [trim, List.getLast?_reverse] at h
  have := List.head?_dropWhile_not isBlank (s.dropWhile isBlank).reverse
  rw [h] at this
  simpa using this

theorem trim_ne_nil {s : List Char} {c : Char} (hc : c ∈ s) (hblank : isBlank c = false) : trim s ≠ [] := by
  intro hnil
  obtain ⟨pre, post, hs, hpre, hpost⟩ := exists_trim s
  rw [hnil, List.nil_append] at hs
  have hall : isBlank c = true := by
    rcases List.mem_append.1 (hs ▸ hc) with hc | hc
    · exact hpre c hc
    · exact hpost c hc
  rw [hblank] at hall
  cases hall

/-- Nothing is trimmed at an end that is not blank. -/
theorem trim_isSuffix {s : List Char} (h : ∀ c, s.getLast? = some c → isBlank c = false) : trim s <:+ s := by
  obtain ⟨pre, post, hs, -, hpost⟩ := exists_trim s
  have hnil : post = [] := by
    by_contra hne
    have hlast : s.getLast? = some (post.getLast hne) := by
      rw [hs, ← List.append_assoc, List.getLast?_append, List.getLast?_eq_some_getLast hne]
      rfl
    have hblank := h _ hlast
    rw [hpost _ (List.getLast_mem hne)] at hblank
    cases hblank
  rw [hnil, List.append_nil] at hs
  exact ⟨pre, hs.symm⟩

/-! ### Lines -/

theorem pieces_ne_nil (p : Char → Bool) (s : List Char) : pieces p s ≠ [] := by
  cases s with
  | nil => exact List.cons_ne_nil _ _
  | cons c s =>
    unfold pieces
    repeat' split
    all_goals exact List.cons_ne_nil _ _

/-- A separator parts the pieces before it from the pieces behind it. -/
theorem pieces_append_cons {p : Char → Bool} {c : Char} (hc : p c = true) (x y : List Char) :
    pieces p (x ++ c :: y) = pieces p x ++ pieces p y := by
  induction x with
  | nil => simp [pieces, hc]
  | cons d x ih =>
    obtain ⟨q, qs, hq⟩ := List.exists_cons_of_ne_nil (pieces_ne_nil p x)
    simp only [List.cons_append, pieces, ih, hq]
    split <;> rfl

/-- A text without separators is one piece. -/
theorem pieces_of_solid {p : Char → Bool} {x : List Char} (hx : ∀ d ∈ x, p d = false) : pieces p x = [x] := by
  induction x with
  | nil => rfl
  | cons d x ih =>
    have hd : p d = false := hx d List.mem_cons_self
    have htail := ih fun e he => hx e (List.mem_cons_of_mem d he)
    simp [pieces, hd, htail]

theorem pieces_flatMap {ls : List (List Char)} (h : ∀ l ∈ ls, '\n' ∉ l) :
    pieces (· == '\n') (ls.flatMap (· ++ ['\n'])) = ls ++ [[]] := by
  induction ls with
  | nil => rfl
  | cons l ls ih =>
    have hl : ∀ d ∈ l, (d == '\n') = false := by
      intro d hd
      have hne : d ≠ '\n' := fun hdn => h l List.mem_cons_self (hdn ▸ hd)
      simpa using hne
    have hrest := ih fun m hm => h m (List.mem_cons_of_mem l hm)
    have htext : (l :: ls).flatMap (· ++ ['\n']) = l ++ '\n' :: ls.flatMap (· ++ ['\n']) := by simp
    rw [htext, pieces_append_cons (by decide), pieces_of_solid hl, hrest]
    rfl

/-- A line as it stands in a text: no line feed in it and no carriage return at its end. -/
structure IsLine (l : List Char) : Prop where
  no_feed : '\n' ∉ l
  no_return : l.getLast? ≠ some '\r'

/-- Lines that are each ended by a line feed are found again. -/
theorem lines_flatMap {ls : List (List Char)} (h : ∀ l ∈ ls, IsLine l) : lines (ls.flatMap (· ++ ['\n'])) = ls := by
  have hreturn : ls.map dropReturn = ls := by
    refine (List.map_congr_left fun l hl => ?_).trans (List.map_id ls)
    exact if_neg (h l hl).no_return
  simp [lines, pieces_flatMap fun l hl => (h l hl).no_feed, hreturn]

theorem length_pieces (p : Char → Bool) (s : List Char) : (pieces p s).length = s.countP p + 1 := by
  induction s with
  | nil => rfl
  | cons c s ih =>
    obtain ⟨q, qs, hq⟩ := List.exists_cons_of_ne_nil (pieces_ne_nil p s)
    rw [hq] at ih
    by_cases hc : p c = true <;> simp_all [pieces]

theorem lines_append_feed (x y : List Char) :
    lines (x ++ '\n' :: y) = (pieces (· == '\n') x).map dropReturn ++ lines y := by
  have hne : pieces (· == '\n') y ≠ [] := pieces_ne_nil _ y
  have hlast : (pieces (· == '\n') x ++ pieces (· == '\n') y).getLast? = (pieces (· == '\n') y).getLast? := by
    rw [List.getLast?_append, List.getLast?_eq_some_getLast hne, Option.some_or]
  unfold lines
  rw [pieces_append_cons (c := '\n') rfl]
  dsimp only
  rw [hlast]
  split
  · rw [List.dropLast_append_of_ne_nil hne, List.map_append]
  · rw [List.map_append]

/-- The lines of a text are its pieces, unless the last of these is empty. -/
theorem map_dropReturn_pieces (s : List Char) :
    (pieces (· == '\n') s).map dropReturn = lines s ∨ (pieces (· == '\n') s).map dropReturn = lines s ++ [[]] := by
  unfold lines
  dsimp only
  split
  · next hlast =>
    refine .inr ?_
    obtain ⟨ps, hps⟩ := List.getLast?_eq_some_iff.1 hlast
    rw [hps, List.dropLast_concat, List.map_append]
    rfl
  · exact .inl rfl

/-! ### Numerals -/

theorem toNat_of_isDigit {c : Char} (hc : c.isDigit = true) : '0'.toNat ≤ c.toNat ∧ c.toNat - '0'.toNat < 10 := by
  have hrange : 48 ≤ c.toNat ∧ c.toNat ≤ 57 := by
    simpa [Char.isDigit, UInt32.le_iff_toNat_le] using hc
  have hzero : '0'.toNat = 48 := rfl
  omega

theorem digitIn_ten {c : Char} (hc : c.isDigit = true) : digitIn 10 c = some (c.toNat - '0'.toNat) := by
  have hsmall : c.toNat - '0'.toNat < 10 := (toNat_of_isDigit hc).2
  simp only [digitIn, digitValue, hc, if_true, Option.filter, decide_eq_true hsmall]

theorem readNat_ten {cs : List Char} (hne : cs ≠ []) (h : ∀ c ∈ cs, c.isDigit = true) :
    readNat 10 cs = some (Nat.ofDigitChars 10 cs 0) := by
  have hfold : ∀ n, cs.foldlM (fun n c => (digitIn 10 c).map fun d => n * 10 + d) n =
      some (Nat.ofDigitChars 10 cs n) := by
    clear hne
    induction cs with
    | nil => intro n; rfl
    | cons c cs ih =>
      intro n
      have hc : c.isDigit = true := h c List.mem_cons_self
      have htail := ih (fun d hd => h d (List.mem_cons_of_mem c hd)) (n * 10 + (c.toNat - '0'.toNat))
      rw [List.foldlM_cons, digitIn_ten hc, Nat.ofDigitChars_cons, Nat.mul_comm 10 n]
      exact htail
  simp [readNat, hne, hfold]

/-- The digits of a number are read as the number. -/
theorem readNat_toDigits (n : Nat) : readNat 10 (Nat.toDigits 10 n) = some n := by
  have hdigits : ∀ c ∈ Nat.toDigits 10 n, c.isDigit = true := fun c hc =>
    Nat.isDigit_of_mem_toDigits (by decide) (by decide) hc
  rw [readNat_ten Nat.toDigits_ne_nil hdigits, Nat.ofDigitChars_ten_toDigits]

theorem isDigit_of_digitIn_ten {c : Char} {d : Nat} (h : digitIn 10 c = some d) : c.isDigit = true := by
  unfold digitIn digitValue at h
  by_cases hc : c.isDigit = true
  · exact hc
  · -- the letters stand for ten and more
    obtain ⟨hvalue, hlt⟩ := Option.filter_eq_some_iff.1 h
    rw [if_neg hc] at hvalue
    have hten : 10 ≤ d := by
      split at hvalue
      · cases hvalue; omega
      · split at hvalue
        · cases hvalue; omega
        · cases hvalue
    have hlt' : d < 10 := of_decide_eq_true hlt
    omega

theorem isDigit_of_readNat {cs : List Char} {n : Nat} (h : readNat 10 cs = some n) :
    cs ≠ [] ∧ ∀ c ∈ cs, c.isDigit = true := by
  unfold readNat at h
  split at h
  · cases h
  · next hne =>
    refine ⟨fun hnil => hne (by rw [hnil]; rfl), ?_⟩
    clear hne
    generalize 0 = m at h
    induction cs generalizing m with
    | nil => simp
    | cons c cs ih =>
      rw [List.foldlM_cons] at h
      obtain ⟨m', hm, hrest⟩ := Option.bind_eq_some_iff.1 h
      obtain ⟨d, hd, -⟩ := Option.map_eq_some_iff.1 hm
      intro c' hc'
      rcases List.mem_cons.1 hc' with rfl | hc'
      · exact isDigit_of_digitIn_ten hd
      · exact ih m' hrest c' hc'

theorem toDigits_of_isDigit {c : Char} (hc : c.isDigit = true) : Nat.toDigits 10 (c.toNat - '0'.toNat) = [c] := by
  obtain ⟨hzero, hlt⟩ := toNat_of_isDigit hc
  rw [Nat.toDigits_of_lt_base hlt]
  congr
  apply Char.toNat_inj.1
  rw [Nat.toNat_digitChar_of_lt_ten hlt]
  exact Nat.add_sub_of_le hzero

/-- Digits behind those of a positive number are the last digits of a greater one. -/
theorem toDigits_append {cs : List Char} {n : Nat} (hn : 0 < n) (h : ∀ c ∈ cs, c.isDigit = true) :
    Nat.toDigits 10 n ++ cs = Nat.toDigits 10 (Nat.ofDigitChars 10 cs n) := by
  induction cs generalizing n with
  | nil => simp
  | cons c cs ih =>
    have hc : c.isDigit = true := h c List.mem_cons_self
    have hcs : ∀ d ∈ cs, d.isDigit = true := fun d hd => h d (List.mem_cons_of_mem c hd)
    have hstep : Nat.toDigits 10 n ++ [c] = Nat.toDigits 10 (10 * n + (c.toNat - '0'.toNat)) := by
      rw [← Nat.toDigits_append_toDigits (by decide) hn (toNat_of_isDigit hc).2, toDigits_of_isDigit hc]
    rw [Nat.ofDigitChars_cons, ← ih (by omega) hcs, ← hstep, List.append_assoc]
    rfl

/-- The digits of a positive number are zeros and then the number itself. -/
theorem exists_zeros {cs : List Char} (h : ∀ c ∈ cs, c.isDigit = true) (hpos : 0 < Nat.ofDigitChars 10 cs 0) :
    ∃ zeros, cs = List.replicate zeros '0' ++ Nat.toDigits 10 (Nat.ofDigitChars 10 cs 0) := by
  induction cs with
  | nil => simp at hpos
  | cons c cs ih =>
    have hc : c.isDigit = true := h c List.mem_cons_self
    have hcs : ∀ d ∈ cs, d.isDigit = true := fun d hd => h d (List.mem_cons_of_mem c hd)
    rw [Nat.ofDigitChars_cons, Nat.mul_zero, Nat.zero_add] at hpos ⊢
    by_cases hzero : c.toNat - '0'.toNat = 0
    · have hc0 : c = '0' := Char.toNat_inj.1 (Nat.le_antisymm (Nat.sub_eq_zero_iff_le.1 hzero) (toNat_of_isDigit hc).1)
      rw [hzero] at hpos ⊢
      obtain ⟨zeros, hz⟩ := ih hcs hpos
      refine ⟨zeros + 1, ?_⟩
      rw [List.replicate_succ, List.cons_append, ← hz, hc0]
    · refine ⟨0, ?_⟩
      rw [← toDigits_append (Nat.pos_of_ne_zero hzero) hcs, toDigits_of_isDigit hc]
      rfl

/-- A numeral of a positive number is the number in digits, with any number of zeros before it. -/
theorem readNat_eq_some_iff {cs : List Char} {n : Nat} (hn : 0 < n) :
    readNat 10 cs = some n ↔ ∃ zeros, cs = List.replicate zeros '0' ++ Nat.toDigits 10 n := by
  constructor
  · intro h
    obtain ⟨hne, hdigits⟩ := isDigit_of_readNat h
    rw [readNat_ten hne hdigits] at h
    cases h
    exact exists_zeros hdigits hn
  · rintro ⟨zeros, rfl⟩
    have hne : List.replicate zeros '0' ++ Nat.toDigits 10 n ≠ [] :=
      List.append_ne_nil_of_right_ne_nil _ Nat.toDigits_ne_nil
    have hdigits : ∀ c ∈ List.replicate zeros '0' ++ Nat.toDigits 10 n, c.isDigit = true := by
      intro c hc
      rcases List.mem_append.1 hc with hc | hc
      · rw [List.eq_of_mem_replicate hc]; decide
      · exact Nat.isDigit_of_mem_toDigits (by decide) (by decide) hc
    rw [readNat_ten hne hdigits, Nat.ofDigitChars_append, Nat.ofDigitChars_replicate_zero, Nat.mul_zero,
      Nat.ofDigitChars_ten_toDigits]

theorem splitSign_cases (cs : List Char) :
    (∃ ds, cs = '+' :: ds ∧ splitSign cs = (some false, ds)) ∨ (∃ ds, cs = '-' :: ds ∧ splitSign cs = (some true, ds)) ∨
      splitSign cs = (none, cs) := by
  unfold splitSign
  split
  · exact .inl ⟨_, rfl, rfl⟩
  · exact .inr (.inl ⟨_, rfl, rfl⟩)
  · exact .inr (.inr rfl)

/-- Digits carry no sign. -/
theorem splitSign_of_isDigit {cs : List Char} (h : ∀ c ∈ cs, c.isDigit = true) : splitSign cs = (none, cs) := by
  unfold splitSign
  split
  · exact absurd (h '+' List.mem_cons_self) (by decide)
  · exact absurd (h '-' List.mem_cons_self) (by decide)
  · rfl

theorem splitSign_toDigits (n : Nat) : splitSign (Nat.toDigits 10 n) = (none, Nat.toDigits 10 n) :=
  splitSign_of_isDigit fun _ hc => Nat.isDigit_of_mem_toDigits (by decide) (by decide) hc

theorem toList_toString (n : Nat) : (toString n).toList = Nat.toDigits 10 n := by
  rw [Nat.toString_eq_ofList_toDigits, String.toList_ofList]

theorem toList_toString_ofNat (n : Nat) : (toString (n : Int)).toList = Nat.toDigits 10 n := toList_toString n

theorem toList_toString_negSucc (n : Nat) :
    (toString (Int.negSucc n)).toList = '-' :: Nat.toDigits 10 (n + 1) := by
  have h : toString (Int.negSucc n) = "-" ++ toString (n + 1) := rfl
  rw [h, String.toList_append, toList_toString]
  rfl

/-- A printed integer is read as that integer. -/
theorem readInt_toString (n : Int) : readInt (toString n).toList = some n := by
  cases n with
  | ofNat n =>
    have h := toList_toString_ofNat n
    rw [Int.ofNat_eq_natCast, h, readInt, splitSign_toDigits]
    simp [readNat_toDigits, signed]
  | negSucc n =>
    rw [toList_toString_negSucc]
    simp only [readInt, splitSign, readNat_toDigits, Option.map_some, signed, if_true]
    rfl

/-- A numeral of a positive integer may have a plus sign and zeros before its digits, and nothing else. -/
theorem readInt_eq_some_iff {cs : List Char} {n : Nat} (hn : 0 < n) :
    readInt cs = some (n : Int) ↔
      ∃ (plus : Bool) (zeros : Nat),
        cs = (if plus then ['+'] else []) ++ List.replicate zeros '0' ++ Nat.toDigits 10 n := by
  constructor
  · intro h
    obtain ⟨m, hm, hsigned⟩ : ∃ m, readNat 10 (splitSign cs).2 = some m ∧ signed (splitSign cs).1 m = n :=
      Option.map_eq_some_iff.1 h
    rcases splitSign_cases cs with ⟨ds, rfl, hsplit⟩ | ⟨ds, rfl, hsplit⟩ | hsplit <;> rw [hsplit] at hm hsigned
    · have hmn : m = n := Int.ofNat_inj.1 hsigned
      obtain ⟨zeros, hz⟩ := (readNat_eq_some_iff hn).1 (hmn ▸ hm)
      exact ⟨true, zeros, congrArg _ hz⟩
    · have hmn : -(m : Int) = n := hsigned
      omega
    · have hmn : m = n := Int.ofNat_inj.1 hsigned
      obtain ⟨zeros, hz⟩ := (readNat_eq_some_iff hn).1 (hmn ▸ hm)
      exact ⟨false, zeros, hz⟩
  · rintro ⟨plus, zeros, rfl⟩
    have hread : readNat 10 (List.replicate zeros '0' ++ Nat.toDigits 10 n) = some n :=
      (readNat_eq_some_iff hn).2 ⟨zeros, rfl⟩
    cases plus with
    | true => simp [readInt, splitSign, hread, signed]
    | false => simp [readInt, splitSign_of_isDigit (isDigit_of_readNat hread).2, hread, signed]

/-! ### Names -/

theorem isNameRest_of_isNameStart {c : Char} (h : isNameStart c = true) : isNameRest c = true := by
  rcases Bool.or_eq_true_iff.1 h with h | h
  · exact Bool.or_eq_true_iff.2 (.inl (Bool.or_eq_true_iff.2 (.inl h)))
  · exact Bool.or_eq_true_iff.2 (.inr h)

/-- No name starts with a digit. -/
theorem isNameStart_of_isDigit {c : Char} (h : c.isDigit = true) : isNameStart c = false := by
  have hdigit : c.toNat ≤ 57 := ((Bool.and_eq_true_iff.1 h).imp of_decide_eq_true of_decide_eq_true).2
  have hupper : c.isUpper = true → 65 ≤ c.toNat := fun h => (of_decide_eq_true h).1
  have hlower : c.isLower = true → 97 ≤ c.toNat := fun h => of_decide_eq_true (Bool.and_eq_true_iff.1 h).1
  by_contra hne
  have hstart : isNameStart c = true := by simpa using hne
  have hclass : ((c.isUpper || c.isLower) || c == '_') = true := hstart
  simp only [Bool.or_eq_true, beq_iff_eq] at hclass
  rcases hclass with (h | h) | rfl
  · have := hupper h; omega
  · have := hlower h; omega
  · exact absurd hdigit (by decide)

theorem isNameRest_of_mem_toDigits {n : Nat} {c : Char} (hc : c ∈ Nat.toDigits 10 n) : isNameRest c = true := by
  have hdigit : c.isDigit = true := Nat.isDigit_of_mem_toDigits (by decide) (by decide) hc
  exact Bool.or_eq_true_iff.2 (.inl (Bool.or_eq_true_iff.2 (.inr hdigit)))

theorem isNameRest_of_mem_toString {n : Int} {c : Char} (hc : c ∈ (toString n).toList) :
    c = '-' ∨ isNameRest c = true := by
  cases n with
  | ofNat n =>
    have h := toList_toString_ofNat n
    rw [Int.ofNat_eq_natCast, h] at hc
    exact .inr (isNameRest_of_mem_toDigits hc)
  | negSucc n =>
    rw [toList_toString_negSucc] at hc
    exact (List.mem_cons.1 hc).imp_right isNameRest_of_mem_toDigits

theorem isNameRest_of_isName {w : String} (h : isName w = true) :
    w.toList ≠ [] ∧ ∀ c ∈ w.toList, isNameRest c = true := by
  unfold isName at h
  split at h
  · cases h
  · next c cs hw =>
    rw [hw]
    simp only [Bool.and_eq_true, List.all_eq_true] at h
    refine ⟨List.cons_ne_nil _ _, fun d hd => ?_⟩
    rcases List.mem_cons.1 hd with rfl | hd
    · exact isNameRest_of_isNameStart h.1
    · exact h.2 d hd

theorem isNameRest_of_isDottedName {w : String} (h : isDottedName w = true) :
    ∀ c ∈ w.toList, isNameRest c = true ∨ c = '.' := by
  unfold isDottedName at h
  split at h
  · cases h
  · next c cs hw =>
    rw [hw]
    simp only [Bool.and_eq_true, List.all_eq_true, Bool.or_eq_true, beq_iff_eq] at h
    intro d hd
    rcases List.mem_cons.1 hd with rfl | hd
    · exact .inl (isNameRest_of_isNameStart h.1)
    · exact h.2 d hd

/-- The characters of names lie between the digits and the small letters. -/
theorem toNat_of_isNameRest {c : Char} (h : isNameRest c = true) : 48 ≤ c.toNat ∧ c.toNat ≤ 122 := by
  have hupper : c.isUpper = true → 65 ≤ c.toNat ∧ c.toNat ≤ 90 := of_decide_eq_true
  have hlower : c.isLower = true → 97 ≤ c.toNat ∧ c.toNat ≤ 122 := fun h =>
    (Bool.and_eq_true_iff.1 h).imp of_decide_eq_true of_decide_eq_true
  have hdigit : c.isDigit = true → 48 ≤ c.toNat ∧ c.toNat ≤ 57 := fun h =>
    (Bool.and_eq_true_iff.1 h).imp of_decide_eq_true of_decide_eq_true
  have hclass : ((c.isUpper || c.isLower) || c.isDigit || c == '_') = true := h
  simp only [Bool.or_eq_true, beq_iff_eq] at hclass
  rcases hclass with ((h | h) | h) | rfl
  · have := hupper h; omega
  · have := hlower h; omega
  · have := hdigit h; omega
  · decide

/-- The characters of names are no blanks. -/
theorem isBlank_of_isNameRest {c : Char} (h : isNameRest c = true) : isBlank c = false := by
  have hrange := toNat_of_isNameRest h
  simp only [isBlank, Bool.or_eq_false_iff, Bool.and_eq_false_iff, decide_eq_false_iff_not, beq_eq_false_iff_ne]
  omega

end Narrowing.Text
