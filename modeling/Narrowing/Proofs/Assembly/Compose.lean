import Narrowing.Proofs.Assembly.Block

/-!
# Texts of assembly one after the other

Reading goes line by line, so it can be cut at any line feed (`addLines_append_feed`).  What stands before the cut is a
finished block if it can be read on its own, and the lines behind it are then added as to an empty one, with the
finished codes in front of the outermost block (`addLines_behind`) and the lines counted on.
-/

namespace Narrowing.Assembly

/-! ### Codes in front -/

/-- The block under construction with some codes in front of its outermost block. -/
def Builder.behind (codes : Block) (inner : Block) : List Block → Builder
  | [] => ⟨codes ++ inner, []⟩
  | block :: outer => ⟨inner, (behind codes block outer).inner :: (behind codes block outer).outer⟩

/-- An error some lines further down. -/
def Error.shift (count : Nat) : Error → Error
  | .complaint line c => .complaint (line + count) c
  | .fault f => .fault f

namespace Builder

variable {codes : Block}

theorem behind_concat (inner : Block) (outer : List Block) (c : Code) :
    behind codes (inner ++ [c]) outer =
      ⟨(behind codes inner outer).inner ++ [c], (behind codes inner outer).outer⟩ := by
  cases outer with
  | nil => rw [behind, behind, List.append_assoc]
  | cons block outer => rfl

/-- Codes in front of the outermost block make no difference to a line. -/
theorem add_behind (b : Builder) (x : Line) :
    (behind codes b.inner b.outer).add x = (b.add x).map fun b' => behind codes b'.inner b'.outer := by
  cases x with
  | nothing => rfl
  | opens => rfl
  | closes =>
    obtain ⟨inner, outer⟩ := b
    cases outer with
    | nil => rfl
    | cons block outer => exact congrArg Except.ok (behind_concat block outer _).symm
  | code c => exact congrArg Except.ok (behind_concat b.inner b.outer c).symm

end Builder

theorem addLine_behind (codes : Block) (b : Builder) (line : List Char) :
    addLine (.behind codes b.inner b.outer) line = (addLine b line).map fun b' => .behind codes b'.inner b'.outer := by
  unfold addLine
  cases readLine line with
  | error e => rfl
  | ok x =>
    show ((Builder.behind codes b.inner b.outer).add x).mapError _ = Except.map _ ((b.add x).mapError _)
    rw [Builder.add_behind]
    cases b.add x <;> rfl

theorem addLines_behind (codes : Block) (b : Builder) (count before : Nat) (ls : List (List Char)) :
    addLines (.behind codes b.inner b.outer) (count + before) ls =
      ((addLines b count ls).map fun b' => Builder.behind codes b'.inner b'.outer).mapError (Error.shift before) := by
  induction ls generalizing b count with
  | nil => rfl
  | cons l ls ih =>
    have hline := addLine_behind codes b l
    unfold addLines
    rw [hline]
    cases addLine b l with
    | ok b' =>
      show addLines (.behind codes b'.inner b'.outer) _ ls = _
      rw [Nat.add_right_comm]
      exact ih b' (count + 1)
    | error e =>
      cases e with
      | fault f => rfl
      | complaint c => exact congrArg (fun n => Except.error (Error.complaint n c)) (Nat.add_right_comm _ _ _)

/-! ### Cutting at a line feed -/

/-- Up to the cut the lines are those of the first text, and behind it those of the second. -/
theorem addLines_append_feed (b : Builder) (x y : List Char) :
    addLines b 0 (Text.lines (x ++ '\n' :: y)) =
      addLines b 0 (Text.lines x) >>= fun b' => addLines b' (x.count '\n' + 1) (Text.lines y) := by
  have hlength : ((Text.pieces (· == '\n') x).map Text.dropReturn).length = x.count '\n' + 1 := by
    rw [List.length_map, Text.length_pieces]
    rfl
  rw [Text.lines_append_feed, addLines_append, hlength, Nat.zero_add]
  congr 1
  -- a last line that is empty adds nothing
  rcases Text.map_dropReturn_pieces x with hx | hx
  · rw [hx]
  · rw [hx, addLines_append]
    cases addLines b 0 (Text.lines x) <;> rfl

theorem length_lines_append_feed (x y : List Char) :
    (Text.lines (x ++ '\n' :: y)).length = (Text.lines y).length + (x.count '\n' + 1) := by
  rw [Text.lines_append_feed, List.length_append, List.length_map, Text.length_pieces, Nat.add_comm]
  rfl

theorem addLines_of_read {s : String} {a : Block} (h : read s = .ok a) :
    addLines .start 0 (Text.lines s.toList) = .ok ⟨a, []⟩ := by
  obtain ⟨⟨inner, outer⟩, hadd, h⟩ := bind_eq_ok.1 h
  cases outer with
  | nil =>
    cases h
    exact hadd
  | cons block outer => cases h

/-- Other than for a loop that is left open, a text fails at one of its lines. -/
theorem addLines_of_read_error {s : String} {e : Error} (h : read s = .error e)
    (hne : ∀ line, e ≠ .complaint line .unterminatedLoop) : addLines .start 0 (Text.lines s.toList) = .error e := by
  unfold read readLines at h
  cases hadd : addLines .start 0 (Text.lines s.toList) with
  | error e' =>
    rw [hadd] at h
    cases h
    rfl
  | ok b =>
    rw [hadd] at h
    obtain ⟨inner, outer⟩ := b
    cases outer with
    | nil => cases h
    | cons block outer =>
      cases h
      exact absurd rfl (hne _)

theorem toList_append_feed (s u : String) : (s ++ "\n" ++ u).toList = s.toList ++ '\n' :: u.toList := by simp

/-- Behind a text that can be read, another one is read as on its own. -/
theorem read_append_feed {s : String} {a : Block} (h : read s = .ok a) (u : String) :
    read (s ++ "\n" ++ u) =
      ((read u).map (a ++ ·)).mapError (Error.shift (s.toList.count '\n' + 1)) := by
  have hlines : addLines .start 0 (Text.lines (s ++ "\n" ++ u).toList) =
      ((addLines .start 0 (Text.lines u.toList)).map fun b => Builder.behind a b.inner b.outer).mapError
        (Error.shift (s.toList.count '\n' + 1)) := by
    have hbehind := addLines_behind a .start 0 (s.toList.count '\n' + 1) (Text.lines u.toList)
    rw [Nat.zero_add, Builder.start, Builder.behind, List.append_nil] at hbehind
    rw [toList_append_feed, addLines_append_feed, addLines_of_read h]
    exact hbehind
  unfold read readLines
  rw [hlines]
  cases addLines .start 0 (Text.lines u.toList) with
  | error e => rfl
  | ok b =>
    obtain ⟨inner, outer⟩ := b
    cases outer with
    | nil => rfl
    | cons block outer =>
      show Except.error (Error.complaint (Text.lines (s ++ "\n" ++ u).toList).length .unterminatedLoop) = _
      rw [toList_append_feed, length_lines_append_feed]
      rfl

/-- **Reading is compositional in lines.**  Two texts that can be read give the codes of the first and then those of the
second when a line feed stands between them.  If only the first can be read, the error of the second is found as many
lines further down as the first has; and an error of the first, unless a loop is left open at its end, is found whatever
follows. -/
theorem read_compositional (s u : String) :
    (∀ a b, read s = .ok a → read u = .ok b → read (s ++ "\n" ++ u) = .ok (a ++ b)) ∧
    (∀ a line c, read s = .ok a → read u = .error (.complaint line c) →
      read (s ++ "\n" ++ u) = .error (.complaint (line + 1 + s.toList.count '\n') c)) ∧
    (∀ a f, read s = .ok a → read u = .error (.fault f) → read (s ++ "\n" ++ u) = .error (.fault f)) ∧
    ∀ e, read s = .error e → (∀ line, e ≠ .complaint line .unterminatedLoop) → read (s ++ "\n" ++ u) = .error e := by
  refine ⟨fun a b hs hu => ?_, fun a line c hs hu => ?_, fun a f hs hu => ?_, fun e hs hne => ?_⟩
  · rw [read_append_feed hs, hu]
    rfl
  · rw [read_append_feed hs, hu, Nat.add_assoc, Nat.add_comm 1]
    rfl
  · rw [read_append_feed hs, hu]
    rfl
  · unfold read readLines
    rw [toList_append_feed, addLines_append_feed, addLines_of_read_error hs hne]
    rfl

/-- A loop over three lines, with a comment and a carriage return. -/
def spacedLoop : String := "// twice\nloop \x7b\r\n\tnop, \n\x7d"

/-- A loop that is closed once too often, two lines further down. -/
def closedTwice : String := "loop \x7b\n\x7d\n\n\x7d"

theorem read_compositional_spacedLoop :
    read (spacedLoop ++ "\n" ++ spacedLoop) = .ok [.loop [.nop], .loop [.nop]] ∧
    read (spacedLoop ++ "\n" ++ closedTwice) = .error (.complaint 8 .unexpectedClose) ∧
    read (closedTwice ++ "\n" ++ spacedLoop) = .error (.complaint 4 .unexpectedClose) := by
  have hloop : read spacedLoop = .ok [.loop [.nop]] := rfl
  have hclosed : read closedTwice = .error (.complaint 4 .unexpectedClose) := rfl
  obtain ⟨hboth, -, -, -⟩ := read_compositional spacedLoop spacedLoop
  obtain ⟨-, hbehind, -, -⟩ := read_compositional spacedLoop closedTwice
  obtain ⟨-, -, -, hbefore⟩ := read_compositional closedTwice spacedLoop
  exact ⟨hboth _ _ hloop hloop, hbehind _ _ _ hloop hclosed, hbefore _ hclosed nofun⟩

end Narrowing.Assembly
