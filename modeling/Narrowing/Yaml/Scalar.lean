import Narrowing.Text.Numeral
import Narrowing.Yaml.Spot

/-!
# The text of a scalar

There are five ways to write a scalar: plain, in single quotes, in double quotes, and as a literal or folded block.
Each function here reads one of them from the spots behind its indicator and gives its text and the spots left over,
or nothing if the scalar is not well formed.

Inside a plain or quoted scalar a line end folds: alone it becomes a space, and of several the first is dropped.
-/

namespace Narrowing.Yaml

/-! ### Gaps -/

/-- The blanks and line ends met since the last visible character. -/
inductive Gap where
  /-- Blanks on one line, the last one first. -/
  | blanks (cs : List Char)
  /-- The first line end, unless it was escaped, and those that followed it. -/
  | broken (first : Option Char) (more : List Char)

namespace Gap

def none : Gap := blanks []

/-- Whether there is a line end in the gap. -/
def isBroken : Gap → Bool
  | blanks _ => false
  | broken _ _ => true

def isEmpty : Gap → Bool
  | blanks cs => cs.isEmpty
  | broken _ _ => false

/-- The gap with one more blank or line end.  Blanks around line ends do not count. -/
def add (s : Spot) : Gap → Gap
  | blanks cs => if s.isBreak then broken (some s.char) [] else blanks (s.char :: cs)
  | broken first more => if s.isBreak then broken first (more ++ [s.char]) else broken first more

/-- What the gap contributes to the text. -/
def fill : Gap → List Char
  | blanks cs => cs.reverse
  | broken (some '\n') [] => [' ']
  | broken (some '\n') more => more
  | broken first more => first.toList ++ more

end Gap

/-! ### Plain scalars -/

/-- Whether a plain scalar ends before the visible character at the head, for what it is. -/
def endsPlain (inFlow : Bool) (s : Spot) (rest : List Spot) : Bool :=
  (s.char == ':' && Spot.atGap rest) || (inFlow && [',', '?', '[', ']', '\x7b', '\x7d'].contains s.char)

/-- A plain scalar in a context that needs its lines to start at column `indent` or later.  Also says whether line ends
were passed behind its last character. -/
def readPlain (indent : Nat) (inFlow : Bool) (text : List Char) (gap : Gap) :
    List Spot → Option (List Char × Bool × List Spot)
  | [] => some (text.reverse, gap.isBroken, [])
  | s :: rest =>
    if s.isBlank || s.isBreak then
      if gap.isBroken && s.char == '\t' && s.column < indent then none
      else readPlain indent inFlow text (gap.add s) rest
    else if (!gap.isEmpty && (s.char == '#' || (!inFlow && s.column < indent))) ||
        Spot.atDocumentMark (s :: rest) || endsPlain inFlow s rest then
      some (text.reverse, gap.isBroken, s :: rest)
    else readPlain indent inFlow (s.char :: (gap.fill.reverse ++ text)) .none rest

/-! ### Quoted scalars -/

/-- A scalar in single quotes, where a quote is written twice. -/
def readSingle (text : List Char) (gap : Gap) : List Spot → Option (List Char × List Spot)
  | [] => none
  | s :: rest =>
    if s.isBlank || s.isBreak then readSingle text (gap.add s) rest
    else if Spot.atDocumentMark (s :: rest) then none
    else
      let text := gap.fill.reverse ++ text
      if s.char == '\'' then
        match rest with
        | t :: rest' =>
          if t.char == '\'' then readSingle ('\'' :: text) .none rest' else some (text.reverse, rest)
        | [] => some (text.reverse, [])
      else readSingle (s.char :: text) .none rest

/-- The character that a letter behind a backslash stands for. -/
def escaped (c : Char) : Option Char :=
  match c with
  | '0' => some '\x00'
  | 'a' => some '\x07'
  | 'b' => some '\x08'
  | 't' | '\t' => some '\t'
  | 'n' => some '\n'
  | 'v' => some '\x0b'
  | 'f' => some '\x0c'
  | 'r' => some '\r'
  | 'e' => some '\x1b'
  | ' ' | '"' | '\'' | '\\' => some c
  | 'N' => some '\u0085'
  | '_' => some '\u00a0'
  | 'L' => some '\u2028'
  | 'P' => some '\u2029'
  | _ => none

/-- How many hexadecimal digits follow a letter behind a backslash. -/
def codeLength (c : Char) : Option Nat :=
  match c with
  | 'x' => some 2
  | 'u' => some 4
  | 'U' => some 8
  | _ => none

/-- Where the reader of a scalar in double quotes is. -/
inductive Quoting where
  | text
  | escape
  /-- Digits still to come, and the value of those before. -/
  | code (left value : Nat)

/-- A scalar in double quotes, where a backslash starts an escape. -/
def readDouble (place : Quoting) (text : List Char) (gap : Gap) : List Spot → Option (List Char × List Spot)
  | [] => none
  | s :: rest =>
    match place with
    | .text =>
      if s.isBlank || s.isBreak then readDouble .text text (gap.add s) rest
      else if Spot.atDocumentMark (s :: rest) then none
      else
        let text := gap.fill.reverse ++ text
        if s.char == '"' then some (text.reverse, rest)
        else if s.char == '\\' then readDouble .escape text .none rest
        else readDouble .text (s.char :: text) .none rest
    | .escape =>
      if s.isBreak then readDouble .text text (.broken none []) rest
      else
        match escaped s.char, codeLength s.char with
        | some c, _ => readDouble .text (c :: text) .none rest
        | none, some n => readDouble (.code n 0) text .none rest
        | none, none => none
    | .code left value =>
      match Text.digitIn 16 s.char with
      | none => none
      | some d =>
        let value := value * 16 + d
        if 1 < left then readDouble (.code (left - 1) value) text .none rest
        else if value.isValidChar then readDouble .text (Char.ofNat value :: text) .none rest
        else none

/-! ### Block scalars -/

/-- What becomes of the line ends behind the last line of a block. -/
inductive Chomp where
  | strip
  | clip
  | keep
  deriving DecidableEq

/-- The indicators behind the first character of a block scalar. -/
structure BlockHeader where
  chomp : Chomp := .clip
  /-- The indentation of the block beyond that of its surroundings, if given. -/
  indent : Option Nat := none

/-- A digit other than 0. -/
def indentDigit (c : Char) : Option Nat := (Text.digitIn 10 c).filter (· != 0)

def chompSign (c : Char) : Option Chomp :=
  if c == '+' then some .keep else if c == '-' then some .strip else none

/-- The indicators of a block scalar, in either order, and the rest of their line. -/
def readIndicators : List Spot → Option (BlockHeader × List Spot)
  | [] => some (⟨.clip, none⟩, [])
  | s :: rest =>
    match chompSign s.char with
    | some chomp =>
      match rest with
      | t :: rest' =>
        if t.char.isDigit then (indentDigit t.char).map fun n => (⟨chomp, some n⟩, rest')
        else some (⟨chomp, none⟩, rest)
      | [] => some (⟨chomp, none⟩, [])
    | none =>
      if s.char.isDigit then
        (indentDigit s.char).map fun n =>
          match rest with
          | t :: rest' =>
            match chompSign t.char with
            | some chomp => (⟨chomp, some n⟩, rest')
            | none => (⟨.clip, some n⟩, rest)
          | [] => (⟨.clip, some n⟩, [])
      else some (⟨.clip, none⟩, s :: rest)

/-- The indicators of a block scalar and the lines below them. -/
def readHeader (spots : List Spot) : Option (BlockHeader × List Spot) :=
  match readIndicators spots with
  | none => none
  | some (header, rest) =>
    match rest.dropWhile Spot.isBlank with
    | [] => some (header, [])
    | s :: rest =>
      if s.isBreak then some (header, rest)
      else if s.char == '#' then some (header, (rest.dropWhile fun t => !t.isBreak).tail)
      else none

/-- A block scalar that is being read. -/
structure BlockText where
  /-- The text so far, the last character first. -/
  text : List Char := []
  /-- The line end behind the last line with text. -/
  lineEnd : Option Char := none
  /-- The line ends of the empty lines behind it. -/
  emptyEnds : List Char := []
  /-- Whether the last line with text starts with a blank. -/
  startsBlank : Bool := false
  /-- The column of the block, once it is known. -/
  indent : Option Nat := none
  /-- The widest margin before it is known. -/
  widest : Nat := 0

/-- Start a line of text with the given character. -/
def BlockText.startLine (literal : Bool) (b : BlockText) (s : Spot) (indent : Nat) : BlockText :=
  let joint :=
    if !literal && !b.startsBlank && !s.isBlank && b.lineEnd == some '\n' then
      if b.emptyEnds.isEmpty then [' '] else []
    else b.lineEnd.toList
  { b with
    text := s.char :: ((joint ++ b.emptyEnds).reverse ++ b.text)
    lineEnd := none
    emptyEnds := []
    startsBlank := s.isBlank
    indent := some indent }

/-- The lines of a block that starts at column `least` or later; `inLine` in the midst of a line. -/
def readBlockLines (literal : Bool) (least : Nat) (inLine : Bool) (b : BlockText) :
    List Spot → Option (BlockText × List Spot)
  | [] => some (b, [])
  | s :: rest =>
    if inLine then
      if s.isBreak then readBlockLines literal least false { b with lineEnd := some s.char } rest
      else readBlockLines literal least true { b with text := s.char :: b.text } rest
    else
      let inMargin := b.indent.all (s.column < ·)
      if inMargin && s.char == ' ' then
        readBlockLines literal least false { b with widest := max b.widest (s.column + 1) } rest
      else if inMargin && s.char == '\t' then none
      else if s.isBreak then readBlockLines literal least false { b with emptyEnds := b.emptyEnds ++ [s.char] } rest
      else
        let indent := b.indent.getD (max b.widest least)
        if s.column == indent then readBlockLines literal least true (b.startLine literal s indent) rest
        else some (b, s :: rest)

/-- The text of a block with the line ends that its indicator keeps. -/
def BlockText.chomped (b : BlockText) (chomp : Chomp) : List Char :=
  b.text.reverse ++
    match chomp with
    | .strip => []
    | .clip => b.lineEnd.toList
    | .keep => b.lineEnd.toList ++ b.emptyEnds

/-- A literal or folded block inside lines that start at the given column. -/
def readBlock (literal : Bool) (outer : Option Nat) (spots : List Spot) : Option (List Char × List Spot) :=
  match readHeader spots with
  | none => none
  | some (header, rest) =>
    let indent := header.indent.map fun n => outer.getD 0 + n
    let least := max 1 (outer.elim 0 (· + 1))
    match readBlockLines literal least false { indent } rest with
    | none => none
    | some (b, rest) => some (b.chomped header.chomp, rest)

end Narrowing.Yaml
