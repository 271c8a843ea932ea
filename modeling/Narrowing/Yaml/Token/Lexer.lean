import Narrowing.Yaml.Comment
import Narrowing.Yaml.Property
import Narrowing.Yaml.Scalar

/-!
# Reading tokens

The lexer goes through the spots of a text once, as far as it is asked for tokens.  Two things make it more than a loop
over characters.

* Block structure comes from columns: a deeper column opens a block, and a shallower one closes all blocks to its right.
* That a token is a key shows only at the colon behind it.  So a token that may be a key is remembered as a candidate,
  and the colon puts the key mark, and the start of a block mapping if need be, in front of it.

Tokens wait in a queue until they are taken.  The head of the queue is ready once two more tokens stand behind it, and
only if it is not a candidate that is awaited, for a mark may still come in front of it.
-/

namespace Narrowing.Yaml

/-- A token that may turn out to be a key. -/
structure Candidate where
  /-- How many tokens come before it. -/
  number : Nat
  place : Place
  /-- It stands where only a key can stand. -/
  required : Bool
  /-- The queue waits for what becomes of it. -/
  awaited : Bool := true

/-- Whether a colon at the given place can make the candidate a key: on its line and not too far off. -/
def Candidate.reaches (c : Candidate) (p : Place) : Bool := p.line ≤ c.place.line && p.index ≤ c.place.index + 1024

/-- A flow collection that is open, or what is outside all of them. -/
structure Level where
  candidate : Option Candidate := none
  /-- The number of the bracket, as long as no candidate was seen behind it. -/
  bracket : Option Nat := none

/-- The state of the lexer. -/
structure Lexer where
  rest : List Spot
  /-- The place behind all spots. -/
  close : Place
  /-- Whether the text could be taken in up to there. -/
  isWhole : Bool
  /-- The tokens that were read and not yet taken. -/
  queue : List Token := [⟨0, .textStart⟩]
  /-- How many tokens were taken. -/
  taken : Nat := 0
  /-- The last token that was read. -/
  last : Lexeme := .textStart
  /-- The last token but one. -/
  before : Lexeme := .textStart
  /-- The columns of the open blocks, innermost first. -/
  indents : List Nat := []
  level : Level := {}
  /-- The levels outside the innermost flow collection. -/
  outer : List Level := []
  /-- Whether a key may start here. -/
  keyAllowed : Bool := true

namespace Lexer

/-- The lexer at the start of a text. -/
def ofLayout (t : Layout) : Lexer := { rest := t.spots, close := t.close, isWhole := t.isWhole }

/-- How deep collections may be nested. -/
def maxDepth : Nat := 10000

/-- Whether a flow collection is open. -/
def inFlow (x : Lexer) : Bool := !x.outer.isEmpty

/-- The place of the next character. -/
def place (x : Lexer) : Place :=
  match x.rest with
  | s :: _ => s.place
  | [] => x.close

/-- Put a token at the end of the queue. -/
def emit (x : Lexer) (line : Nat) (l : Lexeme) : Lexer :=
  { x with queue := x.queue ++ [⟨line, l⟩], last := l, before := x.last }

/-- Put a token in front of the one with the given number.  If that one was taken it comes too late, and goes to the end
of the queue. -/
def insert (x : Lexer) (number line : Nat) (l : Lexeme) : Lexer :=
  if number < x.taken || x.taken + x.queue.length ≤ number then x.emit line l
  else { x with queue := x.queue.insertIdx (number - x.taken) ⟨line, l⟩ }

/-- The number of the next token. -/
def count (x : Lexer) : Nat := x.taken + x.queue.length

/-- Forget the candidate; a required one must not be forgotten. -/
def dropCandidate (x : Lexer) : Option Lexer :=
  if x.level.candidate.any Candidate.required then none else some { x with level := { x.level with candidate := none } }

/-- Remember the token that starts here as a candidate, if a key may start here. -/
def offerCandidate (x : Lexer) : Option Lexer :=
  if x.keyAllowed then
    x.dropCandidate.map fun y =>
      let c : Candidate :=
        { number := x.count, place := x.place, required := !x.inFlow && x.indents.head? == some x.place.column }
      { y with level := { candidate := some c } }
  else some x

/-! ### Blocks -/

/-- Close blocks, innermost first.  They end at `mark`, or at comments behind it. -/
def closeEach (comments : List Comment) (x : Lexer) (mark : Place) : List Nat → Lexer
  | [] => x
  | column :: columns =>
    let mark := Comment.blockEnd column mark.index mark comments
    closeEach comments { x.emit mark.line .blockEnd with indents := x.indents.tail } mark columns

/-- Close the blocks to the right of a column. -/
def closeBlocks (x : Lexer) (right : Nat → Bool) (mark : Place) (comments : List Comment) : Lexer :=
  if x.inFlow then x
  else closeEach comments x { mark with index := mark.index - 1 } (x.indents.takeWhile right)

/-- Open a block at a column, its start in front of the token with the given number, unless one is open there. -/
def openBlock (x : Lexer) (column line number : Nat) (l : Lexeme) : Option Lexer :=
  if x.inFlow || !x.indents.head?.all (· < column) then some x
  else if maxDepth ≤ x.indents.length then none
  else some { x.insert number line l with indents := column :: x.indents }

/-! ### Between tokens -/

/-- What the search for comments at a spot has to know; `mark` is where the last token ends. -/
def setting (x : Lexer) (mark : Place) (s : Spot) : Comment.Setting where
  indent := x.indents.head?.getD 0
  inFlow := x.inFlow
  footLine :=
    let last := if x.last == .flowEntry then x.before else x.last
    if mark.column == 0 || last == .value then none
    else some (s.line - s.breaks + 1 + if s.breaks == 0 && 1 < s.column then 1 else 0)

/-- Whether a character between two tokens is skipped: a space, a tab in a flow collection or where no key may start, or
the mark that may stand in front of the text. -/
def isGapAt (x : Lexer) (s : Spot) : Bool :=
  s.char == ' ' || (s.char == '\t' && (x.inFlow || !x.keyAllowed)) || (s.char == '\ufeff' && s.place.index == 0)

/-- Skip blanks, line ends and comments, and give the groups of comments, the last one first. -/
def skipGap (mark : Place) : Nat → Lexer → List Comment → Lexer × List Comment
  | 0, x, comments => (x, comments)
  | fuel + 1, x, comments =>
    match x.rest with
    | [] => (x, comments)
    | s :: rest =>
      if s.isBreak then skipGap mark fuel { x with rest, keyAllowed := x.keyAllowed || !x.inFlow } comments
      else if x.isGapAt s then skipGap mark fuel { x with rest } comments
      else if s.char == '#' then
        let q : Comment.Search :=
          { origin := mark.index, unbroken := s.breaks ≤ 1, line := s.line, column := s.column }
        let (groups, rest) := Comment.search (x.setting mark s) x.close.index q false x.rest x.rest
        match rest with
        | [] => ({ x with rest }, groups ++ comments)
        | b :: rest =>
          if b.isBreak then
            skipGap mark fuel { x with rest, keyAllowed := x.keyAllowed || !x.inFlow } (groups ++ comments)
          else ({ x with rest := b :: rest }, groups ++ comments)
      else (x, comments)

/-- Skip a comment on the line of the last token, unless that is the hyphen of an item. -/
def skipLineComment (x : Lexer) : Lexer :=
  if x.last == .blockEntry || x.rest.head?.any (0 < ·.breaks) then x
  else
    match x.rest.dropWhile Spot.isBlank with
    | s :: rest => if s.char == '#' then { x with rest := rest.dropWhile fun t => !t.isBreak } else x
    | [] => x

/-! ### Tokens -/

/-- A bracket that opens a flow collection. -/
def openFlow (x : Lexer) (s : Spot) (l : Lexeme) (rest : List Spot) : Option Lexer :=
  if maxDepth ≤ x.outer.length then none
  else
    x.offerCandidate.map fun y =>
      { y.emit s.line l with
        rest, level := { bracket := some x.count }, outer := y.level :: y.outer, keyAllowed := true }

/-- The level around a flow collection that was closed.  If no candidate was seen in the collection, its bracket is no
longer awaited. -/
def Level.leave (inner outer : Level) : Level :=
  { outer with
    candidate := outer.candidate.map fun c =>
      if inner.bracket == some c.number then { c with awaited := false } else c }

/-- A bracket that closes a flow collection. -/
def closeFlow (x : Lexer) (s : Spot) (l : Lexeme) (rest : List Spot) : Option Lexer :=
  x.dropCandidate.map fun y =>
    let z := { y.emit s.line l with rest, keyAllowed := false }
    match y.outer with
    | [] => z
    | level :: outer => { z with level := Level.leave y.level level, outer }

/-- The hyphen of a block sequence. -/
def blockEntry (x : Lexer) (s : Spot) (rest : List Spot) : Option Lexer := do
  if !x.inFlow && !x.keyAllowed then none
  else
    let y ← (← x.openBlock s.column s.line x.count .blockSequence).dropCandidate
    return { y.emit s.line .blockEntry with rest, keyAllowed := true }

/-- The question mark of a key. -/
def keyMark (x : Lexer) (s : Spot) (rest : List Spot) : Option Lexer := do
  if !x.inFlow && !x.keyAllowed then none
  else
    let y ← (← x.openBlock s.column s.line x.count .blockMapping).dropCandidate
    return { y.emit s.line .key with rest, keyAllowed := !x.inFlow }

/-- The colon of a value whose key was marked or is missing. -/
def bareValueMark (x : Lexer) (s : Spot) (rest : List Spot) : Option Lexer := do
  if !x.inFlow && !x.keyAllowed then none
  else
    let y ← x.openBlock s.column s.line x.count .blockMapping
    return { y.emit s.line .value with rest, keyAllowed := !x.inFlow }

/-- The colon of a value. -/
def valueMark (x : Lexer) (s : Spot) (rest : List Spot) : Option Lexer := do
  match x.level.candidate with
  | some c =>
    if c.reaches s.place then
      let y ← (x.insert c.number c.place.line .key).openBlock c.place.column c.place.line c.number .blockMapping
      return { y.emit s.line .value with rest, level := { y.level with candidate := none }, keyAllowed := false }
    else if c.required then none
    else bareValueMark { x with level := { x.level with candidate := none } } s rest
  | none => x.bareValueMark s rest

/-- A token that may be a key. -/
def named (x : Lexer) (s : Spot) (l : Lexeme) (rest : List Spot) : Option Lexer :=
  x.offerCandidate.map fun y => { y.emit s.line l with rest, keyAllowed := false }

def quotedScalar (x : Lexer) (s : Spot) (r : Option (List Char × List Spot)) : Option Lexer :=
  match r with
  | some (text, rest) => x.named s (.scalar (String.ofList text) .quoted) rest
  | none => none

def plainScalar (x : Lexer) (s : Spot) (rest : List Spot) : Option Lexer :=
  match readPlain (x.indents.head?.elim 0 (· + 1)) x.inFlow [] .none (s :: rest) with
  | some (text, broken, rest) =>
    (x.named s (.scalar (String.ofList text) .plain) rest).map fun y => { y with keyAllowed := broken }
  | none => none

def blockScalar (x : Lexer) (s : Spot) (rest : List Spot) : Option Lexer :=
  match readBlock (s.char == '|') x.indents.head? rest with
  | some (text, rest) =>
    x.dropCandidate.map fun y => { y.emit s.line (.scalar (String.ofList text) .block) with rest, keyAllowed := true }
  | none => none

/-- The token that starts with a character, comments behind it left alone. -/
def token (x : Lexer) (s : Spot) (rest : List Spot) : Option Lexer :=
  match s.char with
  | '[' => x.openFlow s .flowSequence rest
  | '\x7b' => x.openFlow s .flowMapping rest
  | ']' => x.closeFlow s .flowSequenceEnd rest
  | '\x7d' => x.closeFlow s .flowMappingEnd rest
  | ',' => x.dropCandidate.map fun y => { y.emit s.line .flowEntry with rest, keyAllowed := true }
  | '-' => if Spot.atGap rest then x.blockEntry s rest else x.plainScalar s rest
  | '?' => if x.inFlow || Spot.atGap rest then x.keyMark s rest else x.plainScalar s rest
  | ':' => if x.inFlow || Spot.atGap rest then x.valueMark s rest else x.plainScalar s rest
  | '*' =>
    match readName rest with
    | some (name, rest) => x.named s (.link name) rest
    | none => none
  | '&' =>
    match readName rest with
    | some (name, rest) => x.named s (.anchor name) rest
    | none => none
  | '!' =>
    match readTag rest with
    | some (t, rest) => x.named s t rest
    | none => none
  | '|' => if x.inFlow then none else x.blockScalar s rest
  | '>' => if x.inFlow then none else x.blockScalar s rest
  | '\'' => x.quotedScalar s (readSingle [] .none rest)
  | '"' => x.quotedScalar s (readDouble .text [] .none rest)
  | c => if ['\t', '#', '%', '@', '\x60'].contains c then none else x.plainScalar s rest

/-- Close all that a document leaves open, at its end. -/
def closeDocument (x : Lexer) (comments : List Comment) : Option Lexer :=
  (x.closeBlocks (fun _ => true) x.place comments).dropCandidate.map fun y => { y with keyAllowed := false }

/-- The end of the text.  It is on a line of its own. -/
def endText (x : Lexer) (comments : List Comment) : Option Lexer :=
  let close := if x.close.column == 0 then x.close else { x.close with line := x.close.line + 1, column := 0 }
  (closeDocument { x with close } comments).map fun y => y.emit close.line .textEnd

/-- The token at a character other than a blank. -/
def step (x : Lexer) (s : Spot) (rest : List Spot) (comments : List Comment) : Option Lexer := do
  if s.column == 0 && s.char == '%' then
    let y ← x.closeDocument comments
    let (l, rest) ← readDirective rest
    return { y.emit s.line l with rest }
  else if Spot.atTriple '-' (s :: rest) then
    let y ← x.closeDocument comments
    return { y.emit s.line .documentStart with rest := rest.drop 2 }
  else if Spot.atTriple '.' (s :: rest) then
    let y ← x.closeDocument comments
    return { y.emit s.line .documentEnd with rest := rest.drop 2 }
  else return (← x.token s rest).skipLineComment

/-- Read on to the next token.  Nothing if there is none, or if it lies behind what could be taken in. -/
def advance (x : Lexer) : Option Lexer :=
  let mark := x.place
  let (y, comments) := skipGap mark (x.rest.length + 1) x []
  let y := y.closeBlocks (y.place.column < ·) mark comments
  let z :=
    match y.rest with
    | [] => y.endText comments
    | s :: rest => y.step s rest comments
  z.filter fun z => z.isWhole || !z.rest.isEmpty

/-! ### The queue -/

/-- Whether the head of the queue is a candidate that is awaited.  Candidates that are out of reach are forgotten, and a
required one must not be. -/
def isAwaited (x : Lexer) : Option (Bool × Lexer) :=
  let isHead (l : Level) : Bool := l.candidate.any fun c => c.awaited && c.number == x.taken
  match ((x.level :: x.outer).filter isHead).head?.bind (·.candidate) with
  | none => some (false, x)
  | some c =>
    if c.reaches x.place then some (true, x)
    else if c.required then none
    else
      let forget (l : Level) : Level := if isHead l then { l with candidate := none } else l
      some (false, { x with level := forget x.level, outer := x.outer.map forget })

/-- Read on until the head of the queue is ready. -/
def prepare : Nat → Lexer → Option Lexer
  | 0, _ => none
  | fuel + 1, x =>
    if x.queue.length < 3 then x.advance.bind (prepare fuel)
    else
      match x.isAwaited with
      | none => none
      | some (false, y) => some y
      | some (true, y) => y.advance.bind (prepare fuel)

/-- Take the head of the queue. -/
def take (x : Lexer) : Lexer := { x with queue := x.queue.tail, taken := x.taken + 1 }

end Lexer

end Narrowing.Yaml
