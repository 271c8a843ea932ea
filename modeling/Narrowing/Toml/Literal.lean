import Narrowing.Text.Date
import Narrowing.Text.Decimal
import Narrowing.Text.Numeral

/-!
# Literals

The values of TOML as they are written, and readers for those without parts.  Each reader takes the characters from the
start of a literal and gives what follows it.
-/

namespace Narrowing.Toml

/-- A key with its parts, outermost first. -/
abbrev Key := List String

/-- A value as it is written.  Floating-point numbers and dates are told apart from the rest, but not read. -/
inductive Literal where
  | text (s : String)
  | int (n : Int)
  | float
  | bool (b : Bool)
  | date
  | array (items : List Literal)
  | inline (entries : List (Key × Literal))
  deriving Repr, Inhabited

/-! ### Strings -/

/-- Where the reader of a string is. -/
inductive Place where
  | text
  | escape
  /-- In the blanks behind a backslash, and whether there was a line end among them. -/
  | gap (broken : Bool)
  /-- In a character code: digits still to come, and the value of those before. -/
  | code (left value : Nat)

/-- The character that a letter behind a backslash stands for. -/
def escaped (c : Char) : Option Char :=
  match c with
  | 'b' => some '\x08'
  | 't' => some '\t'
  | 'n' => some '\n'
  | 'f' => some '\x0c'
  | 'r' => some '\r'
  | '"' | '\\' => some c
  | _ => none

/-- How many hexadecimal digits follow a letter behind a backslash. -/
def codeLength (c : Char) : Option Nat :=
  match c with
  | 'u' => some 4
  | 'U' => some 8
  | _ => none

/-- One more digit of a character code: the place behind it and, at its end, the character. -/
def codeDigit (left value : Nat) (c : Char) : Option (Place × Option Char) :=
  match Text.digitIn 16 c with
  | none => none
  | some d =>
    let value := value * 16 + d
    if 1 < left then some (.code (left - 1) value, none)
    else if value.isValidChar then some (.text, some (Char.ofNat value))
    else none

/-- A string in double quotes, read from behind the first. -/
def readBasic (place : Place) (text : List Char) : List Char → Option (List Char × List Char)
  | [] => none
  | c :: cs =>
    match place with
    | .text =>
      if c == '"' then some (text.reverse, cs)
      else if c == '\n' || c == '\r' then none
      else if c == '\\' then readBasic .escape text cs
      else readBasic .text (c :: text) cs
    | .escape =>
      match escaped c, codeLength c with
      | some d, _ => readBasic .text (d :: text) cs
      | none, some n => readBasic (.code n 0) text cs
      | none, none => none
    | .gap _ => none
    | .code left value =>
      match codeDigit left value c with
      | none => none
      | some (place, d) => readBasic place (d.toList ++ text) cs

/-- A string in single quotes, read from behind the first. -/
def readRaw (text : List Char) : List Char → Option (List Char × List Char)
  | [] => none
  | c :: cs =>
    if c == '\'' then some (text.reverse, cs)
    else if c == '\n' || c == '\r' then none
    else readRaw (c :: text) cs

/-- Blanks and line ends. -/
def isGap (c : Char) : Bool := c == ' ' || c == '\t' || c == '\n' || c == '\r'

/-- A string over several lines in three double quotes.  A backslash at the end of a line joins it to the next visible
character.  Up to two quotes may stand right before the three at the end; `quotes` counts those just passed, and
`slashed` says whether a backslash stands before them. -/
def readMulti (place : Place) (quotes : Nat) (slashed : Bool) (text : List Char) :
    List Char → Option (List Char × List Char)
  | [] => none
  | c :: cs =>
    let place :=
      match place with
      | .gap true => if isGap c then place else .text
      | _ => place
    match place with
    | .text =>
      if c == '"' then
        match cs with
        | '"' :: '"' :: rest =>
          if rest.head? = some '"' then
            if 2 ≤ quotes && !(quotes == 2 && slashed) then none
            else readMulti .text (quotes + 1) slashed ('"' :: text) cs
          else some (text.reverse, rest)
        | _ => readMulti .text (quotes + 1) slashed ('"' :: text) cs
      else if c == '\\' then readMulti .escape 0 false text cs
      else readMulti .text 0 false (c :: text) cs
    | .escape =>
      if isGap c then readMulti (.gap (c == '\n')) 0 false text cs
      else
        match escaped c, codeLength c with
        | some d, _ => readMulti .text (if c == '"' then 1 else 0) (c == '"' || c == '\\') (d :: text) cs
        | none, some n => readMulti (.code n 0) 0 false text cs
        | none, none => none
    | .gap broken => if isGap c then readMulti (.gap (broken || c == '\n')) 0 false text cs else none
    | .code left value =>
      match codeDigit left value c with
      | none => none
      | some (place, d) => readMulti place 0 false (d.toList ++ text) cs

/-- A string over several lines in three single quotes. -/
def readRawMulti (quotes : Nat) (text : List Char) : List Char → Option (List Char × List Char)
  | [] => none
  | c :: cs =>
    if c == '\'' then
      match cs with
      | '\'' :: '\'' :: rest =>
        if rest.head? = some '\'' then
          if 2 ≤ quotes then none else readRawMulti (quotes + 1) ('\'' :: text) cs
        else some (text.reverse, rest)
      | _ => readRawMulti (quotes + 1) ('\'' :: text) cs
    else readRawMulti 0 (c :: text) cs

/-- The characters behind a line end at the start. -/
def dropFirstBreak : List Char → List Char
  | '\n' :: cs => cs
  | '\r' :: '\n' :: cs => cs
  | cs => cs

/-- A string in any of the four forms. -/
def readString : List Char → Option (List Char × List Char)
  | '"' :: '"' :: '"' :: cs => readMulti .text 0 false [] (dropFirstBreak cs)
  | '"' :: cs => readBasic .text [] cs
  | '\'' :: '\'' :: '\'' :: cs => readRawMulti 0 [] (dropFirstBreak cs)
  | '\'' :: cs => readRaw [] cs
  | _ => none

/-! ### Numbers and dates -/

/-- Whether each underscore follows a digit and the text ends with one. -/
def hasSoundGroups (afterDigit : Bool) : List Char → Bool
  | [] => afterDigit
  | c :: cs => (c != '_' || afterDigit) && hasSoundGroups (Text.digitIn 16 c).isSome cs

/-- Whether a number starts with a zero that is not the whole of it. -/
def hasLeadingZero (cs : List Char) : Bool :=
  match cs with
  | '0' :: c :: _ => !(c == 'b' || c == 'o' || c == 'x')
  | s :: '0' :: _ :: _ => s == '-' || s == '+'
  | _ => false

/-- The base of an integer and its digits. -/
def splitBase : List Char → Nat × List Char
  | '0' :: 'b' :: cs => (2, cs)
  | '0' :: 'o' :: cs => (8, cs)
  | '0' :: 'x' :: cs => (16, cs)
  | cs => (10, cs)

/-- The value of an integer that fits in 64 bits. -/
def integerValue? (cs : List Char) : Option Int :=
  if !hasSoundGroups false cs || hasLeadingZero cs then none
  else
    let (sign, rest) := Text.splitSign cs
    let (base, digits) := splitBase rest
    ((Text.readNat base (digits.filter (· != '_'))).map (Text.signed sign)).filter Text.isInt64

/-- Whether a digit follows each point. -/
def hasSoundPoints (afterPoint : Bool) : List Char → Bool
  | [] => !afterPoint
  | c :: cs => (!afterPoint || c.isDigit) && hasSoundPoints (c == '.') cs

/-- The parts of a number between points and exponent marks. -/
def floatParts : List Char → List (List Char)
  | [] => [[]]
  | c :: cs =>
    if c == '.' || c == 'e' || c == 'E' then [] :: floatParts cs
    else
      match floatParts cs with
      | [] => [[c]]
      | p :: ps => (c :: p) :: ps

/-- Whether a text is a floating-point number. -/
def isFloat (cs : List Char) : Bool :=
  let parts := (floatParts cs).filter (!·.isEmpty)
  parts.all (hasSoundGroups false) && !(parts.head?.any hasLeadingZero) && hasSoundPoints false cs &&
    Text.isDecimal (cs.filter (· != '_'))

/-- Whether a text is a date with or without a time of day and a zone, or a time of day. -/
def isDate (cs : List Char) : Bool :=
  let cs := cs.map fun c => if c == 't' || c == ' ' then 'T' else if c == 'z' then 'Z' else c
  (Text.readClock true cs).any List.isEmpty ||
    match Text.readDate true cs with
    | none => false
    | some [] => true
    | some (c :: rest) => c == 'T' && (Text.readClock true rest).any fun zone => zone.isEmpty || Text.isZone zone

/-- A text with the blanks at its end cut off. -/
def trimEnd (cs : List Char) : List Char := (cs.reverse.dropWhile (· == ' ')).reverse

/-- The longest start of a text whose characters belong to a class, and the rest. -/
def splitWhile (p : Char → Bool) (cs : List Char) : List Char × List Char := (cs.takeWhile p, cs.dropWhile p)

def isFloatChar (c : Char) : Bool := c.isDigit || ['_', '.', '-', '+', 'e', 'E'].contains c

def isDateChar (c : Char) : Bool := c.isDigit || ['-', ':', 'T', 't', ' ', '.', 'Z', 'z', '+'].contains c

/-- An integer in a base other than ten, read from its start. -/
def readBased (base : Nat) (cs : List Char) : Option (Literal × List Char) :=
  let (digits, rest) := splitWhile (fun c => (Text.digitIn base c).isSome || c == '_') (cs.drop 2)
  if (digits.head?.bind (Text.digitIn base)).isNone then none
  else (integerValue? (cs.take 2 ++ digits)).map fun n => (.int n, rest)

/-- A decimal integer or a floating-point number. -/
def readDecimal (cs : List Char) : Option (Literal × List Char) :=
  let (sign, unsigned) := splitWhile (fun c => c == '+' || c == '-') cs
  let (digits, rest) := splitWhile (fun c => c.isDigit || c == '_') unsigned
  match rest with
  | c :: _ =>
    if ['.', 'e', 'E'].contains c then
      let (text, rest) := splitWhile isFloatChar cs
      if isFloat text then some (.float, rest) else none
    else (integerValue? (sign ++ digits)).map fun n => (.int n, rest)
  | [] => (integerValue? (sign ++ digits)).map fun n => (.int n, rest)

/-- A number or a date. -/
def readNumber (cs : List Char) : Option (Literal × List Char) :=
  match cs with
  | '0' :: 'b' :: _ => readBased 2 cs
  | '0' :: 'o' :: _ => readBased 8 cs
  | '0' :: 'x' :: _ => readBased 16 cs
  | _ =>
    let (digits, rest) := splitWhile Char.isDigit cs
    if digits != ['0'] && rest.head?.any fun c => c == '-' || c == ':' then
      let (text, rest) := splitWhile isDateChar cs
      if isDate (trimEnd text) then some (.date, rest) else none
    else readDecimal cs

/-- A number with a sign. -/
def readSigned (cs : List Char) : Option (Literal × List Char) :=
  match cs.tail with
  | 'i' :: 'n' :: 'f' :: rest => some (.float, rest)
  | 'n' :: 'a' :: 'n' :: rest => some (.float, rest)
  | '0' :: c :: _ => if ['b', 'o', 'x'].contains c then none else readDecimal cs
  | c :: _ => if c.isDigit then readDecimal cs else none
  | [] => none

/-- A value without parts. -/
def readAtom (cs : List Char) : Option (Literal × List Char) :=
  match cs with
  | [] => none
  | 't' :: 'r' :: 'u' :: 'e' :: rest => some (.bool true, rest)
  | 'f' :: 'a' :: 'l' :: 's' :: 'e' :: rest => some (.bool false, rest)
  | 'i' :: 'n' :: 'f' :: rest => some (.float, rest)
  | 'n' :: 'a' :: 'n' :: rest => some (.float, rest)
  | c :: _ =>
    if c.isDigit then readNumber cs
    else if c == '+' || c == '-' then readSigned cs
    else (readString cs).map fun r => (.text (String.ofList r.1), r.2)

end Narrowing.Toml
