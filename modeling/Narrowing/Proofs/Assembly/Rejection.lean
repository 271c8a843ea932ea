import Narrowing.Proofs.Assembly.Grammar

/-!
# Where assembly is rejected

A line of assembly is blank, a comment or spelled by its words (`Means`), and the depth at which loops nest says whether
it may stand where it does (`Passes`).  Reading stops at the first line that may not.  It complains about that line,
unless the line has commas and no words: that is the one text no line can be, and the only fault.
-/

namespace Narrowing

namespace Text

theorem words_eq_nil_iff {s : List Char} : words s = [] ↔ ∀ c ∈ s, isBlank c = true := by
  constructor
  · intro h
    induction s with
    | nil => simp
    | cons c s ih =>
      have hc : isBlank c = true := by
        by_contra hsolid
        obtain ⟨w, ws, hw⟩ := words_cons_of_solid (c := c) (by simpa using hsolid) s
        rw [h] at hw
        cases hw
      have hskip : words ([c] ++ s) = words s := words_blanks_append (by simpa using hc) s
      have htail : ∀ d ∈ s, isBlank d = true := ih (hskip.symm.trans h)
      intro d hd
      rcases List.mem_cons.1 hd with rfl | hd
      · exact hc
      · exact htail d hd
  · intro h
    have hnone : words (s ++ []) = words [] := words_blanks_append h []
    rw [List.append_nil] at hnone
    exact hnone

theorem trim_eq_nil_iff {s : List Char} : trim s = [] ↔ ∀ c ∈ s, isBlank c = true := by
  constructor
  · intro h c hc
    by_contra hsolid
    exact trim_ne_nil hc (by simpa using hsolid) h
  · intro h
    obtain ⟨pre, post, hs, -, -⟩ := exists_trim s
    have hmem : ∀ c ∈ trim s, c ∈ s := fun c hc =>
      hs ▸ List.mem_append_right pre (List.mem_append_left post hc)
    by_contra hne
    have hsolid := isBlank_of_getLast?_trim (List.getLast?_eq_some_getLast hne)
    rw [h _ (hmem _ (List.getLast_mem hne))] at hsolid
    cases hsolid

/-- Blanks around a text that starts with two solid characters leave them at its start. -/
theorem trim_blanks_append {pre : List Char} {c d : Char} (hpre : ∀ e ∈ pre, isBlank e = true)
    (hc : isBlank c = false) (hd : isBlank d = false) (rest : List Char) :
    ∃ more, trim (pre ++ c :: d :: rest) = c :: d :: more := by
  have hfront : (pre ++ c :: d :: rest).dropWhile isBlank = c :: d :: rest := by
    rw [List.dropWhile_append_of_pos hpre, List.dropWhile_cons_of_neg (by simp [hc])]
  have hback : (c :: d :: rest).reverse = rest.reverse ++ [d, c] := by simp
  refine ⟨(rest.reverse.dropWhile isBlank).reverse, ?_⟩
  rw [trim, hfront, hback, List.dropWhile_append]
  split
  · next hnil =>
    rw [List.isEmpty_iff.1 hnil, List.dropWhile_cons_of_neg (by simp [hd])]
    rfl
  · simp

end Text

namespace Assembly

/-! ### Lines -/

/-- Two slashes, perhaps behind blanks. -/
def IsComment (line : List Char) : Prop :=
  ∃ pre rest, (∀ c ∈ pre, Text.isBlank c = true) ∧ line = pre ++ '/' :: '/' :: rest

/-- Commas, at least one, and blanks. -/
def IsCommaLine (line : List Char) : Prop := ',' ∈ line ∧ ∀ c ∈ line, c = ',' ∨ Text.isBlank c = true

/-- What a line contributes to a block. -/
inductive Means : List Char → Line → Prop
  | blank {line : List Char} (h : ∀ c ∈ line, Text.isBlank c = true) : Means line .nothing
  | comment {line : List Char} (h : IsComment line) : Means line .nothing
  | spelled {line : List Char} {x : Line} (h : SpellsLine (lineWords line) x) : Means line x

theorem lineWords_eq_nil_iff {s : List Char} : lineWords s = [] ↔ ∀ c ∈ s, c = ',' ∨ Text.isBlank c = true := by
  have hchar : ∀ c, Text.isBlank (if c == ',' then ' ' else c) = true ↔ c = ',' ∨ Text.isBlank c = true := by
    intro c
    by_cases hc : c = ','
    · simp only [hc, beq_self_eq_true, if_true, true_or, iff_true]
      rfl
    · simp [hc]
  rw [lineWords, List.map_eq_nil_iff, Text.words_eq_nil_iff, List.forall_mem_map]
  exact forall_congr' fun c => imp_congr_right fun _ => hchar c

theorem isComment_iff {line : List Char} : ['/', '/'].isPrefixOf (Text.trim line) = true ↔ IsComment line := by
  constructor
  · intro h
    obtain ⟨rest, hrest⟩ := List.isPrefixOf_iff_prefix.1 h
    obtain ⟨pre, post, hline, hpre, -⟩ := Text.exists_trim line
    refine ⟨pre, rest ++ post, hpre, hline.trans ?_⟩
    rw [← hrest]
    simp
  · rintro ⟨pre, rest, hpre, rfl⟩
    obtain ⟨more, hmore⟩ := Text.trim_blanks_append (c := '/') (d := '/') hpre rfl rfl rest
    rw [hmore]
    simp [List.isPrefixOf]

/-- The first word of a line that is spelled does not start like a comment. -/
theorem SpellsLine.head_ne_slash {first : String} {args : List String} {x : Line} (h : SpellsLine (first :: args) x) :
    first.toList.head? ≠ some '/' := by
  cases h with
  | @label l hl =>
    obtain ⟨hne, hrest⟩ := Text.isNameRest_of_isName hl
    obtain ⟨c, cs, hcs⟩ := List.exists_cons_of_ne_nil hne
    have hc : Text.isNameRest c = true := hrest c (by simp [hcs])
    intro hhead
    have hslash : c = '/' := by simpa [hcs] using hhead
    rw [hslash] at hc
    exact absurd hc (by decide)
  | operation h =>
    cases h with
    | @intro m aux => exact head?_operationText m aux
  | _ => decide

theorem readLine_of_blank {line : List Char} (h : ∀ c ∈ line, Text.isBlank c = true) : readLine line = .ok .nothing := by
  have hempty : Text.trim line = [] := Text.trim_eq_nil_iff.2 h
  simp [readLine, hempty]

theorem readLine_of_comment {line : List Char} (h : IsComment line) : readLine line = .ok .nothing := by
  have hprefix := isComment_iff.2 h
  simp [readLine, hprefix]

section Solid

variable {line : List Char} (hblank : ¬ ∀ c ∈ line, Text.isBlank c = true) (hcomment : ¬ IsComment line)

include hblank hcomment

theorem isSkipped_eq_false :
    ((Text.trim line).isEmpty || ['/', '/'].isPrefixOf (Text.trim line)) = false := by
  have hempty : (Text.trim line).isEmpty = false := by
    simpa using fun hnil => hblank (Text.trim_eq_nil_iff.1 hnil)
  have hprefix : ['/', '/'].isPrefixOf (Text.trim line) = false :=
    Bool.eq_false_iff.2 fun h => hcomment (isComment_iff.1 h)
  rw [hempty, hprefix, Bool.or_self]

theorem readLine_of_wordless (hwords : lineWords line = []) : readLine line = .error (.fault .wordless) := by
  simp only [readLine, isSkipped_eq_false hblank hcomment, lineWords_trim, hwords, Bool.false_eq_true, if_false]

theorem readLine_of_first {first : String} {args : List String} (hwords : lineWords line = first :: args) :
    readLine line = (readWords first args).mapError .complaint := by
  simp only [readLine, isSkipped_eq_false hblank hcomment, lineWords_trim, hwords, Bool.false_eq_true, if_false]

end Solid

theorem readLine_eq_ok_iff {line : List Char} {x : Line} : readLine line = .ok x ↔ Means line x := by
  constructor
  · intro h
    by_cases hblank : ∀ c ∈ line, Text.isBlank c = true
    · rw [readLine_of_blank hblank] at h
      rw [← Except.ok.inj h]
      exact .blank hblank
    by_cases hcomment : IsComment line
    · rw [readLine_of_comment hcomment] at h
      rw [← Except.ok.inj h]
      exact .comment hcomment
    cases hwords : lineWords line with
    | nil => rw [readLine_of_wordless hblank hcomment hwords] at h; cases h
    | cons first args =>
      rw [readLine_of_first hblank hcomment hwords] at h
      have hspelled := readWords_eq_ok_iff.1 (mapError_eq_ok.1 h)
      exact .spelled (hwords ▸ hspelled)
  · intro h
    cases h with
    | blank h => exact readLine_of_blank h
    | comment h => exact readLine_of_comment h
    | spelled h =>
      cases hwords : lineWords line with
      | nil => rw [hwords] at h; cases h with | operation h => cases h
      | cons first args =>
        rw [hwords] at h
        rw [readLine_of_words hwords h.head_ne_slash]
        exact mapError_eq_ok.2 (readWords_eq_ok_iff.2 h)

/-- Only a line of commas is a fault. -/
theorem readLine_fault_iff {line : List Char} {f : Fault} :
    readLine line = .error (.fault f) ↔ f = .wordless ∧ IsCommaLine line := by
  constructor
  · intro h
    by_cases hblank : ∀ c ∈ line, Text.isBlank c = true
    · rw [readLine_of_blank hblank] at h; cases h
    by_cases hcomment : IsComment line
    · rw [readLine_of_comment hcomment] at h; cases h
    cases hwords : lineWords line with
    | nil =>
      rw [readLine_of_wordless hblank hcomment hwords] at h
      have hcommas := lineWords_eq_nil_iff.1 hwords
      refine ⟨(LineError.fault.inj (Except.error.inj h)).symm, ?_, hcommas⟩
      by_contra hno
      refine hblank fun c hc => (hcommas c hc).resolve_left ?_
      rintro rfl
      exact hno hc
    | cons first args =>
      rw [readLine_of_first hblank hcomment hwords] at h
      cases hread : readWords first args <;> rw [hread] at h <;> cases h
  · rintro ⟨rfl, hcomma, hall⟩
    have hblank : ¬ ∀ c ∈ line, Text.isBlank c = true := fun h => absurd (h ',' hcomma) (by decide)
    have hcomment : ¬ IsComment line := by
      rintro ⟨pre, rest, -, rfl⟩
      have hslash := hall '/' (by simp)
      exact absurd hslash (by decide)
    exact readLine_of_wordless hblank hcomment (lineWords_eq_nil_iff.2 hall)

/-! ### Nesting -/

/-- How deep loops nest before and behind a line. -/
inductive Line.Nests : Line → Nat → Nat → Prop
  | nothing {d : Nat} : Nests .nothing d d
  | opens {d : Nat} : Nests .opens d (d + 1)
  | closes {d : Nat} : Nests .closes (d + 1) d
  | code {d : Nat} {c : Code} : Nests (.code c) d d

/-- The line may stand where loops nest `d` deep, and they nest `d'` deep behind it. -/
def Passes (d : Nat) (line : List Char) (d' : Nat) : Prop := ∃ x, Means line x ∧ x.Nests d d'

/-- The lines may stand one after the other. -/
inductive PassAll : Nat → List (List Char) → Nat → Prop
  | nil {d : Nat} : PassAll d [] d
  | cons {d e k : Nat} {line : List Char} {ls : List (List Char)} (h : Passes d line e) (hs : PassAll e ls k) :
    PassAll d (line :: ls) k

/-- Behind the lines `before`, which may all stand where they do, comes one that may not. -/
def StopsAt (d : Nat) (ls before : List (List Char)) (line : List Char) : Prop :=
  ∃ e after, PassAll d before e ∧ (∀ k, ¬ Passes e line k) ∧ ls = before ++ line :: after

/-- How deep the loops under construction nest. -/
def Builder.depth (b : Builder) : Nat := b.outer.length

theorem Passes.unique {d e e' : Nat} {line : List Char} (h : Passes d line e) (h' : Passes d line e') : e = e' := by
  obtain ⟨x, hx, hnests⟩ := h
  obtain ⟨x', hx', hnests'⟩ := h'
  rw [← readLine_eq_ok_iff] at hx hx'
  have hsame : x = x' := Except.ok.inj (hx.symm.trans hx')
  subst hsame
  cases hnests <;> cases hnests' <;> rfl

theorem PassAll.unique {d e e' : Nat} {ls : List (List Char)} (h : PassAll d ls e) (h' : PassAll d ls e') : e = e' := by
  induction h with
  | nil => cases h'; rfl
  | cons hline _ ih =>
    cases h' with
    | cons hline' hs' =>
      rw [← hline.unique hline'] at hs'
      exact ih hs'

section StopsAt

variable {d e : Nat} {ls before before' : List (List Char)} {line line' : List Char}

theorem StopsAt.cons {first : List Char} (hfirst : Passes d first e) (h : StopsAt e ls before line) :
    StopsAt d (first :: ls) (first :: before) line := by
  obtain ⟨k, after, hbefore, hline, rfl⟩ := h
  exact ⟨k, after, .cons hfirst hbefore, hline, rfl⟩

theorem StopsAt.not_passAll (h : StopsAt d ls before line) : ¬ PassAll d ls e := by
  obtain ⟨k, after, hbefore, hline, rfl⟩ := h
  intro hall
  induction hbefore with
  | nil =>
    cases hall with
    | cons hpasses _ => exact hline _ hpasses
  | cons hfirst _ ih =>
    cases hall with
    | cons hfirst' hall =>
      rw [← hfirst.unique hfirst'] at hall
      exact ih hline hall

theorem StopsAt.unique (h : StopsAt d ls before line) (h' : StopsAt d ls before' line') :
    before' = before ∧ line' = line := by
  obtain ⟨k, after, hbefore, hline, rfl⟩ := h
  obtain ⟨k', after', hbefore', hline', hls⟩ := h'
  induction hbefore generalizing before' with
  | nil =>
    cases hbefore' with
    | nil => exact ⟨rfl, (List.cons.inj hls).1.symm⟩
    | cons hfirst' _ =>
      rw [← (List.cons.inj hls).1] at hfirst'
      exact absurd hfirst' (hline _)
  | cons hfirst _ ih =>
    cases hbefore' with
    | nil =>
      rw [(List.cons.inj hls).1] at hfirst
      exact absurd hfirst (hline' _)
    | cons hfirst' hbefore' =>
      obtain ⟨rfl, hrest⟩ := List.cons.inj hls
      rw [← hfirst.unique hfirst'] at hbefore'
      obtain ⟨rfl, rfl⟩ := ih hline hbefore' hrest
      exact ⟨rfl, rfl⟩

end StopsAt

/-! ### Reading line by line -/

theorem Builder.nests_iff {b : Builder} {x : Line} {d : Nat} :
    x.Nests b.depth d ↔ ∃ b', b.add x = .ok b' ∧ b'.depth = d := by
  obtain ⟨inner, outer⟩ := b
  constructor
  · intro h
    cases x with
    | nothing => cases h; exact ⟨_, rfl, rfl⟩
    | opens => cases h; exact ⟨_, rfl, rfl⟩
    | code c => cases h; exact ⟨_, rfl, rfl⟩
    | closes =>
      cases outer with
      | nil => cases h
      | cons block outer => cases h; exact ⟨_, rfl, rfl⟩
  · rintro ⟨b', hadd, rfl⟩
    cases x with
    | nothing => cases hadd; exact .nothing
    | opens => cases hadd; exact .opens
    | code c => cases hadd; exact .code
    | closes =>
      cases outer with
      | nil => cases hadd
      | cons block outer => cases hadd; exact .closes

theorem passes_iff {b : Builder} {line : List Char} {d : Nat} :
    Passes b.depth line d ↔ ∃ b', addLine b line = .ok b' ∧ b'.depth = d := by
  constructor
  · rintro ⟨x, hx, hnests⟩
    obtain ⟨b', hadd, hd⟩ := Builder.nests_iff.1 hnests
    exact ⟨b', bind_eq_ok.2 ⟨x, readLine_eq_ok_iff.2 hx, mapError_eq_ok.2 hadd⟩, hd⟩
  · rintro ⟨b', hadd, hd⟩
    obtain ⟨x, hx, hadd⟩ := bind_eq_ok.1 hadd
    exact ⟨x, readLine_eq_ok_iff.1 hx, Builder.nests_iff.2 ⟨b', mapError_eq_ok.1 hadd, hd⟩⟩

theorem addLine_fault_iff {b : Builder} {line : List Char} {f : Fault} :
    addLine b line = .error (.fault f) ↔ f = .wordless ∧ IsCommaLine line := by
  rw [← readLine_fault_iff]
  unfold addLine
  cases readLine line with
  | error e => exact ⟨fun h => congrArg _ (Except.error.inj h), fun h => congrArg _ (Except.error.inj h)⟩
  | ok x =>
    show (b.add x).mapError _ = _ ↔ _
    cases b.add x <;> exact ⟨nofun, nofun⟩

/-- What becomes of a line: it passes, or it is a line of commas, or there is a complaint about it. -/
theorem addLine_cases (b : Builder) (line : List Char) :
    (∃ b', addLine b line = .ok b' ∧ Passes b.depth line b'.depth) ∨
      (∀ e, ¬ Passes b.depth line e) ∧
        (IsCommaLine line ∧ addLine b line = .error (.fault .wordless) ∨
          ¬ IsCommaLine line ∧ ∃ c, addLine b line = .error (.complaint c)) := by
  cases hadd : addLine b line with
  | ok b' => exact .inl ⟨b', rfl, passes_iff.2 ⟨b', hadd, rfl⟩⟩
  | error e =>
    have hnot : ∀ k, ¬ Passes b.depth line k := by
      intro k hk
      obtain ⟨b', hb', -⟩ := passes_iff.1 hk
      rw [hadd] at hb'
      cases hb'
    refine .inr ⟨hnot, ?_⟩
    cases e with
    | fault f =>
      obtain ⟨rfl, hcommas⟩ := addLine_fault_iff.1 hadd
      exact .inl ⟨hcommas, rfl⟩
    | complaint c =>
      refine .inr ⟨fun hcommas => ?_, c, rfl⟩
      rw [addLine_fault_iff.2 ⟨rfl, hcommas⟩] at hadd
      cases hadd

/-- What becomes of some lines: they all pass, or the first that does not decides. -/
theorem addLines_cases (b : Builder) (count : Nat) (ls : List (List Char)) :
    (∃ b', addLines b count ls = .ok b' ∧ PassAll b.depth ls b'.depth) ∨
      ∃ before line, StopsAt b.depth ls before line ∧
        (IsCommaLine line ∧ addLines b count ls = .error (.fault .wordless) ∨
          ¬ IsCommaLine line ∧ ∃ c, addLines b count ls = .error (.complaint (count + before.length + 1) c)) := by
  induction ls generalizing b count with
  | nil => exact .inl ⟨b, rfl, .nil⟩
  | cons line ls ih =>
    unfold addLines
    rcases addLine_cases b line with ⟨b₁, hadd, hpasses⟩ | ⟨hnot, hline⟩
    · rw [hadd]
      dsimp only
      rcases ih b₁ (count + 1) with ⟨b', hrest, hall⟩ | ⟨before, last, hstops, hlast⟩
      · exact .inl ⟨b', hrest, .cons hpasses hall⟩
      · have hcount : count + (line :: before).length + 1 = count + 1 + before.length + 1 := by
          rw [List.length_cons]
          omega
        refine .inr ⟨line :: before, last, hstops.cons hpasses, ?_⟩
        rw [hcount]
        exact hlast
    · refine .inr ⟨[], line, ⟨b.depth, ls, .nil, hnot, rfl⟩, ?_⟩
      rcases hline with ⟨hcommas, hadd⟩ | ⟨hcommas, c, hadd⟩
      · rw [hadd]
        exact .inl ⟨hcommas, rfl⟩
      · rw [hadd]
        exact .inr ⟨hcommas, c, rfl⟩

/-- What lines decide about the block that is read from them. -/
inductive Decides (ls : List (List Char)) : Except Error Block → Prop
  | block {b : Block} (hall : PassAll 0 ls 0) : Decides ls (.ok b)
  | unterminated {d : Nat} (hall : PassAll 0 ls d) (hd : 0 < d) :
    Decides ls (.error (.complaint ls.length .unterminatedLoop))
  | wordless {before : List (List Char)} {line : List Char} (h : StopsAt 0 ls before line)
    (hcommas : IsCommaLine line) : Decides ls (.error (.fault .wordless))
  | offence {before : List (List Char)} {line : List Char} {c : Complaint} (h : StopsAt 0 ls before line)
    (hcommas : ¬ IsCommaLine line) : Decides ls (.error (.complaint (before.length + 1) c))

theorem decides_readLines (ls : List (List Char)) : Decides ls (readLines ls) := by
  unfold readLines
  rcases addLines_cases .start 0 ls with ⟨⟨inner, outer⟩, hadd, hall⟩ | ⟨before, line, hstops, hline⟩
  · rw [hadd]
    cases outer with
    | nil => exact .block hall
    | cons block outer => exact .unterminated hall (Nat.succ_pos outer.length)
  · rcases hline with ⟨hcommas, hadd⟩ | ⟨hcommas, c, hadd⟩
    · rw [hadd]
      exact .wordless hstops hcommas
    · rw [hadd, Nat.zero_add]
      exact .offence hstops hcommas

section Decides

variable {ls before : List (List Char)} {line : List Char} {result : Except Error Block} {d : Nat}

theorem Decides.of_passAll (h : Decides ls result) (hall : PassAll 0 ls d) :
    d = 0 ∧ (∃ b, result = .ok b) ∨ 0 < d ∧ result = .error (.complaint ls.length .unterminatedLoop) := by
  cases h with
  | @block b hall' => exact .inl ⟨hall.unique hall', b, rfl⟩
  | unterminated hall' hd => exact .inr ⟨hall.unique hall' ▸ hd, rfl⟩
  | wordless hstops => exact absurd hall hstops.not_passAll
  | offence hstops => exact absurd hall hstops.not_passAll

theorem Decides.of_stopsAt (h : Decides ls result) (hstops : StopsAt 0 ls before line) :
    IsCommaLine line ∧ result = .error (.fault .wordless) ∨
      ¬ IsCommaLine line ∧ ∃ c, result = .error (.complaint (before.length + 1) c) := by
  cases h with
  | block hall => exact absurd hall hstops.not_passAll
  | unterminated hall => exact absurd hall hstops.not_passAll
  | wordless hstops' hcommas =>
    obtain ⟨rfl, rfl⟩ := hstops.unique hstops'
    exact .inl ⟨hcommas, rfl⟩
  | @offence _ _ c hstops' hcommas =>
    obtain ⟨rfl, rfl⟩ := hstops.unique hstops'
    exact .inr ⟨hcommas, c, rfl⟩

end Decides

/-- **Only a line of commas is a fault.**  Reading returns a block exactly if every line may stand where it does and no
loop is left open.  Otherwise the first line that may not decides: if it has commas and no words reading ends in a fault,
and for any other line in a complaint with its number.  If all lines may stand but a loop is left open, the complaint has
the number of the last line. -/
theorem read_stops_at_first_offence (src : String) :
    ((∃ b, read src = .ok b) ↔ PassAll 0 (Text.lines src.toList) 0) ∧
    (∀ f, read src = .error (.fault f) ↔
      f = .wordless ∧ ∃ before line, StopsAt 0 (Text.lines src.toList) before line ∧ IsCommaLine line) ∧
    ∀ n, (∃ c, read src = .error (.complaint n c)) ↔
      (∃ before line, StopsAt 0 (Text.lines src.toList) before line ∧ ¬ IsCommaLine line ∧ n = before.length + 1) ∨
        n = (Text.lines src.toList).length ∧ ∃ d, 0 < d ∧ PassAll 0 (Text.lines src.toList) d := by
  have hdecides : Decides (Text.lines src.toList) (read src) := decides_readLines _
  generalize Text.lines src.toList = ls at *
  generalize read src = result at *
  refine ⟨⟨?_, fun hall => ?_⟩, fun f => ⟨?_, ?_⟩, fun n => ⟨?_, ?_⟩⟩
  · rintro ⟨b, rfl⟩
    cases hdecides with
    | block hall => exact hall
  · rcases hdecides.of_passAll hall with ⟨-, hok⟩ | ⟨hd, -⟩
    · exact hok
    · exact absurd hd (Nat.lt_irrefl 0)
  · rintro rfl
    cases hdecides with
    | wordless hstops hcommas => exact ⟨rfl, _, _, hstops, hcommas⟩
  · rintro ⟨rfl, before, line, hstops, hcommas⟩
    rcases hdecides.of_stopsAt hstops with ⟨-, hfault⟩ | ⟨hother, -⟩
    · exact hfault
    · exact absurd hcommas hother
  · rintro ⟨c, rfl⟩
    cases hdecides with
    | unterminated hall hd => exact .inr ⟨rfl, _, hd, hall⟩
    | offence hstops hcommas => exact .inl ⟨_, _, hstops, hcommas, rfl⟩
  · rintro (⟨before, line, hstops, hcommas, rfl⟩ | ⟨rfl, d, hd, hall⟩)
    · rcases hdecides.of_stopsAt hstops with ⟨hother, -⟩ | ⟨-, hcomplaint⟩
      · exact absurd hother hcommas
      · exact hcomplaint
    · rcases hdecides.of_passAll hall with ⟨rfl, -⟩ | ⟨-, hopen⟩
      · exact absurd hd (Nat.lt_irrefl 0)
      · exact ⟨_, hopen⟩

end Assembly

end Narrowing
