/-!
# Blanks, words and lines

White space is the Unicode property: the ASCII controls from tab to carriage return, the space, and the separators
beyond ASCII.  Words are the runs between blanks; lines end at a line feed.
-/

namespace Narrowing.Text

/-- White space. -/
def isBlank (c : Char) : Bool :=
  let n := c.toNat
  (0x09 ≤ n && n ≤ 0x0d) || n == 0x20 || n == 0x85 || n == 0xa0 || n == 0x1680 || (0x2000 ≤ n && n ≤ 0x200a) ||
    n == 0x2028 || n == 0x2029 || n == 0x202f || n == 0x205f || n == 0x3000

/-- Text without the blanks at its ends. -/
def trim (s : List Char) : List Char :=
  ((s.dropWhile isBlank).reverse.dropWhile isBlank).reverse

theorem length_trim_le (s : List Char) : (trim s).length ≤ s.length := by
  unfold trim
  rw [List.length_reverse]
  refine Nat.le_trans (List.dropWhile_sublist _).length_le ?_
  rw [List.length_reverse]
  exact (List.dropWhile_sublist _).length_le

/-- Put a finished word, unless it is empty, before the words that follow it. -/
def closeWord (w : List Char) (ws : List (List Char)) : List (List Char) :=
  if w.isEmpty then ws else w :: ws

/-- The word at the start of a text and the words behind it. -/
def wordsFrom : List Char → List Char × List (List Char)
  | [] => ([], [])
  | c :: cs =>
    let (w, ws) := wordsFrom cs
    if isBlank c then ([], closeWord w ws) else (c :: w, ws)

/-- The maximal runs of characters that are not blank. -/
def words (s : List Char) : List (List Char) :=
  let (w, ws) := wordsFrom s
  closeWord w ws

/-- The pieces between separators; there is one more than there are separators. -/
def pieces (isSeparator : Char → Bool) : List Char → List (List Char)
  | [] => [[]]
  | c :: cs =>
    if isSeparator c then [] :: pieces isSeparator cs
    else
      match pieces isSeparator cs with
      | [] => [[c]]
      | p :: ps => (c :: p) :: ps

/-- A line without the carriage return before its end. -/
def dropReturn (line : List Char) : List Char :=
  if line.getLast? = some '\r' then line.dropLast else line

/-- The lines of a text.  The last one needs no line feed; behind a final line feed there is no further line. -/
def lines (s : List Char) : List (List Char) :=
  let ps := pieces (· == '\n') s
  (if ps.getLast? = some [] then ps.dropLast else ps).map dropReturn

end Narrowing.Text
