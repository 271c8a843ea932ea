/-!
# Characters in their places

Block structure in YAML is a matter of columns, and messages name lines.  So a text is first laid out: each character
gets its place.  Every form of line end but the two Unicode separators becomes a line feed.

A text is taken in by blocks of 512 octets, and a block with a character that no text may hold cannot be taken in.  What
lies before such a block can be read as long as nothing behind it is asked for.
-/

namespace Narrowing.Yaml

/-- A place in a text: how many characters lie before it, its line and its column. -/
structure Place where
  index : Nat := 0
  line : Nat := 0
  column : Nat := 0
  deriving DecidableEq, Repr

/-- The forms of line ends: a carriage return or line feed alone, one behind the other, or one outside ASCII. -/
inductive LineEnd where
  | single
  | pair
  | wide
  deriving DecidableEq, Repr

/-- A character and where it stands. -/
structure Spot where
  char : Char
  place : Place
  /-- The form of the line end that stands here. -/
  lineEnd : Option LineEnd := none
  /-- How many line ends, with nothing but blanks between, lie before it. -/
  breaks : Nat := 0
  deriving DecidableEq, Repr

/-- Characters a text may hold. -/
def isAllowed (c : Char) : Bool :=
  let n := c.toNat
  n == 0x09 || n == 0x0a || n == 0x0d || (0x20 ≤ n && n ≤ 0x7e) || n == 0x85 || (0xa0 ≤ n && n ≤ 0xfffd) ||
    0x10000 ≤ n

namespace Spot

def line (s : Spot) : Nat := s.place.line

def column (s : Spot) : Nat := s.place.column

/-- A space or a tab. -/
def isBlank (s : Spot) : Bool := s.char == ' ' || s.char == '\t'

/-- A line end. -/
def isBreak (s : Spot) : Bool := s.lineEnd.isSome

/-- The place behind a spot. -/
def next (s : Spot) : Place :=
  match s.lineEnd with
  | none => ⟨s.place.index + 1, s.place.line, s.place.column + 1⟩
  | some .pair => ⟨s.place.index + 2, s.place.line + 1, 0⟩
  | some _ => ⟨s.place.index + 1, s.place.line + 1, 0⟩

/-- The number of line ends between the last visible character and what follows a spot. -/
def breaksBehind (s : Spot) : Nat :=
  if s.isBreak then s.breaks + 1 else if s.isBlank then s.breaks else 0

/-- The characters laid out from the given place on. -/
def layOut (p : Place) (breaks : Nat) : List Char → List Spot
  | [] => []
  | '\r' :: '\n' :: cs =>
    let s : Spot := ⟨'\n', p, some .pair, breaks⟩
    s :: layOut s.next s.breaksBehind cs
  | c :: cs =>
    let s : Spot :=
      if c == '\n' || c == '\r' then ⟨'\n', p, some .single, breaks⟩
      else if c == '\u0085' then ⟨'\n', p, some .wide, breaks⟩
      else if c == '\u2028' || c == '\u2029' then ⟨c, p, some .wide, breaks⟩
      else ⟨c, p, none, breaks⟩
    s :: layOut s.next s.breaksBehind cs

/-- Whether a blank, a line end or the end of the text stands here. -/
def atGap : List Spot → Bool
  | [] => true
  | s :: _ => s.isBlank || s.isBreak

/-- Whether three of the given character stand here at the start of a line, alone. -/
def atTriple (c : Char) : List Spot → Bool
  | a :: b :: d :: rest => a.column == 0 && a.char == c && b.char == c && d.char == c && atGap rest
  | _ => false

/-- Whether a document ends here: at three hyphens or three full stops. -/
def atDocumentMark (spots : List Spot) : Bool := atTriple '-' spots || atTriple '.' spots

end Spot

/-! ### Texts -/

/-- How many octets are taken in at once. -/
def blockSize : Nat := 512

/-- The part of a text in front of the first block that cannot be taken in, and whether that is all of it.  `room`
octets are free in the block at hand, which holds the characters `block`, the last one first, behind those in `done`. -/
def soundPart (room : Nat) (done block : List Char) : List Char → List Char × Bool
  | [] => ((block ++ done).reverse, true)
  | c :: cs =>
    if !isAllowed c then ((if c.utf8Size ≤ room then done else block ++ done).reverse, false)
    else if c.utf8Size ≤ room then soundPart (room - c.utf8Size) done (c :: block) cs
    else soundPart (blockSize - c.utf8Size) (block ++ done) [c] cs

/-- A text laid out. -/
structure Layout where
  spots : List Spot
  /-- The place behind the last spot. -/
  close : Place
  /-- Whether the whole text could be taken in.  If not, the last spot stands for what could not. -/
  isWhole : Bool
  deriving Repr

/-- Lay out a text.  A byte order mark at its start does not count. -/
def Layout.ofText (text : String) : Layout :=
  let (cs, isWhole) := soundPart blockSize [] [] text.toList
  let cs := if cs.head? = some '\ufeff' then cs.tail else cs
  let spots := Spot.layOut {} 0 (if isWhole then cs else cs ++ ['\x00'])
  ⟨spots, (spots.getLast?.map Spot.next).getD {}, isWhole⟩

end Narrowing.Yaml
