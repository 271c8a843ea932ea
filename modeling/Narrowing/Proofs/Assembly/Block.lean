import Narrowing.Proofs.Assembly.Grammar
import Narrowing.Proofs.Flow

/-!
# Blocks of assembly

Reading undoes printing.  The lines of a printed block add its codes to whatever block is under construction (`Adds`),
those of a loop by putting its body back in its place (`Adds.loop`).  Reading returns exactly the blocks that assembly
can express.
-/

namespace Narrowing.Assembly

/-! ### Printed blocks -/

namespace IsLineOf

variable {ws : List String} {s : String}

/-- Tabs at the start of a line hold no words. -/
theorem indent (h : IsLineOf ws s) (depth : Nat) : IsLineOf ws (tabs depth ++ s) := by
  have htabs : ∀ c ∈ List.replicate depth '\t', c = '\t' := fun c hc => List.eq_of_mem_replicate hc
  have hblank : ∀ c ∈ List.replicate depth '\t', Text.isBlank c = true := fun c hc => htabs c hc ▸ rfl
  have htext : (tabs depth ++ s).toList = List.replicate depth '\t' ++ s.toList := by simp [tabs]
  refine ⟨?_, fun c hc => ?_⟩
  · rw [htext, lineWords, List.map_append, Text.words_blanks_append (blank_map_comma hblank)]
    exact h.words
  · rcases List.mem_append.1 (htext ▸ hc) with hc | hc
    · rw [htabs c hc]; decide
    · exact h.no_break c hc

theorem isLine (h : IsLineOf ws s) : Text.IsLine s.toList where
  no_feed hmem := (h.no_break _ hmem).1 rfl
  no_return hlast := (h.no_break _ (List.mem_of_getLast? hlast)).2 rfl

/-- A printed line adds what its words are read as. -/
theorem addLine {first : String} {args : List String} {x : Line} {b b' : Builder} (h : IsLineOf (first :: args) s)
    (hhead : first.toList.head? ≠ some '/') (hread : readWords first args = .ok x) (hadd : b.add x = .ok b') :
    addLine b s.toList = .ok b' := by
  have hline : readLine s.toList = .ok x := (readLine_of_words h.words hhead).trans (mapError_eq_ok.2 hread)
  exact bind_eq_ok.2 ⟨x, hline, mapError_eq_ok.2 hadd⟩

end IsLineOf

/-- The text is made of lines that add the codes to any block under construction. -/
def Adds (codes : List Code) (s : String) : Prop :=
  ∃ ls, s.toList = ls.flatMap (· ++ ['\n']) ∧ (∀ l ∈ ls, Text.IsLine l) ∧
    ∀ b count, addLines b count ls = .ok ⟨b.inner ++ codes, b.outer⟩

theorem addLines_append (b : Builder) (count : Nat) (ls ms : List (List Char)) :
    addLines b count (ls ++ ms) = (addLines b count ls >>= fun b' => addLines b' (count + ls.length) ms) := by
  induction ls generalizing b count with
  | nil => rfl
  | cons l ls ih =>
    simp only [List.cons_append, addLines, List.length_cons]
    split
    · rw [ih, Nat.add_assoc, Nat.add_comm 1]
    · rfl
    · rfl

theorem addLines_cons {b b' : Builder} {l : List Char} (h : addLine b l = .ok b') (count : Nat)
    (ls : List (List Char)) : addLines b count (l :: ls) = addLines b' (count + 1) ls := by
  simp only [addLines, h]

namespace Adds

theorem nil : Adds [] "" := ⟨[], rfl, nofun, fun b _ => by simp [addLines]⟩

theorem append {codes more : List Code} {s s' : String} (h : Adds codes s) (h' : Adds more s') :
    Adds (codes ++ more) (s ++ s') := by
  obtain ⟨ls, hs, hls, hadd⟩ := h
  obtain ⟨ms, hs', hms, hadd'⟩ := h'
  refine ⟨ls ++ ms, by simp [hs, hs'], fun l hl => ?_, fun b count => ?_⟩
  · rcases List.mem_append.1 hl with hl | hl
    · exact hls l hl
    · exact hms l hl
  · rw [addLines_append, hadd]
    show addLines _ _ ms = _
    rw [hadd', List.append_assoc]

/-- The line of a code that is no loop adds the code. -/
theorem line (depth : Nat) {c : Code} (hc : IsSpelled c) : Adds [c] (tabs depth ++ c.text ++ "\n") := by
  obtain ⟨first, args, hline, hhead, hread⟩ := hc
  have hindent := hline.indent depth
  refine ⟨[(tabs depth ++ c.text).toList], by simp, ?_, fun b count => ?_⟩
  · intro l hl
    rw [List.mem_singleton.1 hl]
    exact hindent.isLine
  · rw [addLines_cons (hindent.addLine hhead hread rfl)]
    rfl

/-- The lines of a body between those of the braces add the loop. -/
theorem loop (depth : Nat) {body : List Code} {s : String} (h : Adds body s) :
    Adds [.loop body] (tabs depth ++ "loop \x7b\n" ++ s ++ tabs depth ++ "\x7d\n") := by
  obtain ⟨ls, hs, hls, hadd⟩ := h
  have hopen : IsLineOf ["loop", "\x7b"] (tabs depth ++ "loop \x7b") :=
    ((IsLineOf.word "loop" rfl).append (.word "\x7b" rfl)).indent depth
  have hclose : IsLineOf ["\x7d"] (tabs depth ++ "\x7d") := (IsLineOf.word "\x7d" rfl).indent depth
  refine ⟨(tabs depth ++ "loop \x7b").toList :: (ls ++ [(tabs depth ++ "\x7d").toList]), by simp [hs], ?_, ?_⟩
  · intro l hl
    rcases List.mem_cons.1 hl with rfl | hl
    · exact hopen.isLine
    rcases List.mem_append.1 hl with hl | hl
    · exact hls l hl
    · rw [List.mem_singleton.1 hl]
      exact hclose.isLine
  · intro b count
    rw [addLines_cons (hopen.addLine (by decide) rfl rfl), addLines_append, hadd]
    show addLines _ _ [(tabs depth ++ "\x7d").toList] = _
    rw [addLines_cons (hclose.addLine (by decide) rfl rfl)]
    rfl

end Adds

theorem formatCode_of_not_loop (depth : Nat) {c : Code} (hc : c.isExpressible = true) (hloop : ∀ body, c ≠ .loop body) :
    formatCode depth c = .ok (tabs depth ++ c.text ++ "\n") := by
  cases c with
  | loop body => exact absurd rfl (hloop body)
  | bareLoop => cases hc
  | hole => cases hc
  | _ => rw [formatCode] <;> nofun

/-- A block that assembly can express is printed, as lines that add its codes. -/
theorem exists_formatBlock {codes : List Code} (h : areExpressible codes = true) (depth : Nat) :
    ∃ s, formatBlock depth codes = .ok s ∧ Adds codes s := by
  induction codes using block_induction generalizing depth with
  | nil => exact ⟨"", by rw [formatBlock], .nil⟩
  | cons c rest ihbody ih =>
    obtain ⟨hc, hrest⟩ : c.isExpressible = true ∧ areExpressible rest = true := Bool.and_eq_true_iff.1 h
    obtain ⟨s', hs', hadds'⟩ := ih hrest depth
    obtain ⟨s, hs, hadds⟩ : ∃ s, formatCode depth c = .ok s ∧ Adds [c] s := by
      by_cases hloop : ∃ body, c = .loop body
      · obtain ⟨body, rfl⟩ := hloop
        obtain ⟨inner, hinner, haddsInner⟩ := ihbody hc (depth + 1)
        refine ⟨_, ?_, haddsInner.loop depth⟩
        rw [formatCode]
        exact bind_eq_ok.2 ⟨inner, hinner, rfl⟩
      · have hne : ∀ body, c ≠ .loop body := fun body hbody => hloop ⟨body, hbody⟩
        exact ⟨_, formatCode_of_not_loop depth hc hne, .line depth (spelled_of_isExpressible hc hne)⟩
    refine ⟨s ++ s', ?_, hadds.append hadds'⟩
    rw [formatBlock]
    exact bind_eq_ok.2 ⟨s, hs, bind_eq_ok.2 ⟨s', hs', rfl⟩⟩

theorem read_of_adds {b : Block} {s : String} (h : Adds b s) : read s = .ok b := by
  obtain ⟨ls, hs, hls, hadd⟩ := h
  rw [read, hs, Text.lines_flatMap hls]
  exact bind_eq_ok.2 ⟨_, hadd .start 0, rfl⟩

/-! ### What reading returns -/

/-- The blocks under construction can all be written in assembly. -/
def Builder.IsExpressible (b : Builder) : Prop := ∀ block ∈ b.inner :: b.outer, areExpressible block = true

namespace Builder.IsExpressible

theorem addLine {b b' : Builder} {line : List Char} (hb : b.IsExpressible) (h : addLine b line = .ok b') :
    b'.IsExpressible := by
  obtain ⟨x, hread, h⟩ := bind_eq_ok.1 h
  have hadd := mapError_eq_ok.1 h
  have hinner : areExpressible b.inner = true := hb _ List.mem_cons_self
  cases x with
  | nothing => cases hadd; exact hb
  | opens =>
    cases hadd
    intro block hblock
    rcases List.mem_cons.1 hblock with rfl | hblock
    · rfl
    · exact hb block hblock
  | closes =>
    obtain ⟨inner, outer⟩ := b
    cases outer with
    | nil => cases hadd
    | cons around outer =>
      cases hadd
      have haround : areExpressible around = true := hb _ (by simp)
      intro block hblock
      rcases List.mem_cons.1 hblock with rfl | hblock
      · simp only [areExpressible_append, haround, areExpressible, Code.isExpressible, hinner, Bool.and_self]
      · exact hb block (List.mem_cons_of_mem _ (List.mem_cons_of_mem _ hblock))
  | code c =>
    cases hadd
    intro block hblock
    rcases List.mem_cons.1 hblock with rfl | hblock
    · simp only [areExpressible_append, hinner, areExpressible, isExpressible_of_readLine hread, Bool.and_self]
    · exact hb block (List.mem_cons_of_mem _ hblock)

theorem addLines {b b' : Builder} {count : Nat} {ls : List (List Char)} (hb : b.IsExpressible)
    (h : addLines b count ls = .ok b') : b'.IsExpressible := by
  induction ls generalizing b count with
  | nil => cases h; exact hb
  | cons l ls ih =>
    unfold Assembly.addLines at h
    split at h
    · next b₁ hline => exact ih (hb.addLine hline) h
    · cases h
    · cases h

end Builder.IsExpressible

/-- Reading returns blocks that can be written in assembly. -/
theorem areExpressible_of_read {src : String} {b : Block} (h : read src = .ok b) : areExpressible b = true := by
  obtain ⟨b', hadd, h⟩ := bind_eq_ok.1 h
  have hstart : Builder.start.IsExpressible := by
    intro block hblock
    rw [List.mem_singleton.1 hblock]
    rfl
  have hb' : b'.IsExpressible := hstart.addLines hadd
  split at h
  · cases h
    exact hb' _ List.mem_cons_self
  · cases h

/-! ### Round trips -/

/-- The text read and printed again, if it is a block. -/
def reprint? (src : String) : Option String := do
  let b ← (read src).toOption
  (format b).toOption

/-- **Reading undoes printing** on exactly the blocks that reading returns, so a text that was printed once prints the
same ever after. -/
theorem assembly_round_trip :
    (∀ b, areExpressible b = true → ∃ s, format b = .ok s ∧ read s = .ok b) ∧
    (∀ src b, read src = .ok b → areExpressible b = true) ∧
    (∀ src b, read src = .ok b → ∃ s, reprint? src = some s ∧ read s = .ok b ∧ reprint? s = some s) := by
  have hprint : ∀ b, areExpressible b = true → ∃ s, format b = .ok s ∧ read s = .ok b := by
    intro b hb
    obtain ⟨s, hs, hadds⟩ := exists_formatBlock hb 0
    exact ⟨s, hs, read_of_adds hadds⟩
  refine ⟨hprint, fun src b h => areExpressible_of_read h, fun src b h => ?_⟩
  obtain ⟨s, hs, hread⟩ := hprint b (areExpressible_of_read h)
  have hreprint : ∀ text, read text = .ok b → reprint? text = some s := by
    intro text htext
    simp [reprint?, htext, hs, Except.toOption]
  exact ⟨s, hreprint src h, hread, hreprint s hread⟩

/-- Labels spelled like mnemonics, a loop in a loop, absent slots and a number beyond every machine word. -/
def awkwardBlock : Block :=
  [.label "const", .loop [.label "goto", .loop [], .const 9223372036854775807 (.int (-100000000000000000000))],
    .switch noSlot [⟨.int (-5), "goto"⟩, ⟨.null, "loop"⟩] "default", .compute .invoke noSlot [] "a.b", .label "loop",
    .label "default", .compute .newList 0 [1, noSlot] "", .branch 0 .le 1 "const", .ret [0, 1]]

theorem assembly_round_trip_awkwardBlock :
    areExpressible awkwardBlock = true ∧ ∃ s, format awkwardBlock = .ok s ∧ read s = .ok awkwardBlock :=
  ⟨by decide, assembly_round_trip.1 awkwardBlock (by decide)⟩

end Narrowing.Assembly
