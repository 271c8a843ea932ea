import Narrowing.Text.Base64
import Narrowing.Text.Date
import Narrowing.Text.Decimal
import Narrowing.Text.Numeral
import Narrowing.Text.Utf8

/-!
# Tags of scalars

A tag says what a scalar stands for.  A quoted scalar is a string; a plain one is judged by its text: one of a few
words, a number, a date, or else a string.
-/

namespace Narrowing.Yaml

/-- What a scalar stands for. -/
inductive Tag where
  | str
  | int
  | float
  | bool
  | null
  | timestamp
  | merge
  /-- A text written in base 64. -/
  | binary
  | other (name : String)
  deriving DecidableEq, Repr

/-- The tag with the given name, in short or in full.  The exclamation mark alone leaves the question open. -/
def Tag.ofName? (name : String) : Option Tag :=
  let core := "tag:yaml.org,2002:".toList
  let cs := name.toList
  match if core.isPrefixOf cs then "!!" ++ String.ofList (cs.drop core.length) else name with
  | "!" => none
  | "!!str" => some .str
  | "!!int" => some .int
  | "!!float" => some .float
  | "!!bool" => some .bool
  | "!!null" => some .null
  | "!!timestamp" => some .timestamp
  | "!!merge" => some .merge
  | "!!binary" => some .binary
  | short => some (.other short)

/-! ### Numbers -/

/-- Digits in the given base; underscores may stand between digits, and in front if `afterDigit`. -/
def readGrouped (base : Nat) (afterDigit : Bool) (value : Nat) : List Char → Option Nat
  | [] => if afterDigit then some value else none
  | c :: cs =>
    if c == '_' then if afterDigit then readGrouped base false value cs else none
    else
      match Text.digitIn base c with
      | some d => readGrouped base true (value * base + d) cs
      | none => none

/-- The base that the start of a numeral tells, and the digits: `0b`, `0o` and `0x` in either case, a bare `0` for
octal. -/
def splitBase : List Char → Nat × List Char
  | '0' :: c :: d :: cs =>
    if c == 'b' || c == 'B' then (2, d :: cs)
    else if c == 'o' || c == 'O' then (8, d :: cs)
    else if c == 'x' || c == 'X' then (16, d :: cs)
    else (8, c :: d :: cs)
  | '0' :: cs => (8, cs)
  | cs => (10, cs)

/-- The integer a numeral with an optional sign stands for, in the base it tells. -/
def readNumeral (cs : List Char) : Option Int :=
  let (sign, digits) := Text.splitSign cs
  let (base, rest) := splitBase digits
  (readGrouped base (base != 10) 0 rest).map (Text.signed sign)

/-- The value of a numeral without underscores that fits in 64 bits, signed or, without a sign, unsigned. -/
def readWord (cs : List Char) : Option Int :=
  let (sign, _) := Text.splitSign cs
  (readNumeral cs).filter fun n => Text.isInt64 n || (sign.isNone && Text.isBelowWord64 n)

/-- The value of binary or octal digits behind `0b` or `0o` with an optional sign in front or behind, in 64 bits. -/
def readLateSign (cs : List Char) : Option Int :=
  let late (base : Nat) (digits : List Char) : Option Int :=
    let (sign, rest) := Text.splitSign digits
    ((Text.readNat base rest).map (Text.signed sign)).filter fun n =>
      Text.isInt64 n || (sign.isNone && Text.isBelowWord64 n)
  match cs with
  | '0' :: 'b' :: digits => late 2 digits
  | '0' :: 'o' :: digits => late 8 digits
  | _ => none

/-- Whether each underscore stands between two digits. -/
def hasSoundGroups (afterDigit : Bool) : List Char → Bool
  | [] => true
  | '_' :: c :: cs => afterDigit && c.isDigit && hasSoundGroups true cs
  | ['_'] => false
  | c :: cs => hasSoundGroups c.isDigit cs

/-! ### Dates -/

/-- Whether a text is a date, alone, with a time of day, or with a time of day and a zone. -/
def isTimestamp (cs : List Char) : Bool :=
  match Text.readDate false cs with
  | none => false
  | some [] => true
  | some (c :: rest) =>
    if c == 'T' || c == 't' then (Text.readClock false rest).any Text.isZone
    else if c == ' ' then (Text.readClock false (rest.dropWhile (· == ' '))).any List.isEmpty
    else false

/-! ### Plain scalars -/

/-- The tag of a plain scalar that starts with a digit or a sign. -/
def Tag.ofNumeral (cs : List Char) : Tag :=
  let plain := cs.filter (· != '_')
  if isTimestamp cs then .timestamp
  else if (readWord plain).isSome then .int
  else if Text.isDecimal plain then .float
  else if (readLateSign plain).isSome then .int
  else .str

/-- The tag of a plain scalar. -/
def Tag.ofPlain (text : String) : Tag :=
  if ["", "~", "null", "Null", "NULL"].contains text then .null
  else if ["true", "True", "TRUE", "false", "False", "FALSE"].contains text then .bool
  else if [".nan", ".NaN", ".NAN", ".inf", ".Inf", ".INF", "+.inf", "+.Inf", "+.INF", "-.inf", "-.Inf",
      "-.INF"].contains text then .float
  else if text == "<<" then .merge
  else
    let cs := text.toList
    match cs with
    | [] => .null
    | c :: _ =>
      if c.isDigit || c == '+' || c == '-' then .ofNumeral cs
      else if c == '.' && hasSoundGroups false cs && Text.isDecimal (cs.filter (· != '_')) then .float
      else .str

/-- Whether a scalar of the given tag can have the text.  A whole number is also a float. -/
def Tag.fits (tag : Tag) (text : String) : Bool :=
  match tag with
  | .str | .merge | .other _ => true
  | .binary => (Text.fromBase64? text).isSome
  | .float =>
    match Tag.ofPlain text with
    | .float => true
    | .int => (readNumeral (text.toList.filter (· != '_'))).all Text.isInt64
    | _ => false
  | t => Tag.ofPlain text == t

/-- The text that a scalar stands for.  One that is not in base 64 stands for nothing. -/
def Tag.content (tag : Tag) (text : String) : String :=
  if tag == .binary then ((Text.fromBase64? text).map Text.ofOctets).getD "" else text

end Narrowing.Yaml
