import Narrowing.Text.Numeral
import Narrowing.Text.Utf8
import Narrowing.Yaml.Spot
import Narrowing.Yaml.Token

/-!
# Anchors, tags and directives

In front of a node there may stand an anchor, which names it, and a tag, which says what it stands for.  A tag is given
in full in angle brackets, or as a handle and a suffix.  Directives, in front of a document, give the version of the
format and the stems that handles stand for.

Each function here reads from the spots behind an indicator and gives what it found and the spots left over.
-/

namespace Narrowing.Yaml

/-- Letters, digits, hyphens and underscores. -/
def isNameChar (c : Char) : Bool := c.isAlphanum || c == '_' || c == '-'

/-- The name that stands here, which may be empty. -/
def nameHere (spots : List Spot) : List Char × List Spot :=
  ((spots.takeWhile fun s => isNameChar s.char).map Spot.char, spots.dropWhile fun s => isNameChar s.char)

/-- The name of an anchor or alias. -/
def readName (spots : List Spot) : Option (String × List Spot) :=
  let (name, rest) := nameHere spots
  let ends := Spot.atGap rest || rest.head?.any fun s => ['?', ':', ',', ']', '\x7d', '%', '@', '\x60'].contains s.char
  if name.isEmpty || !ends then none else some (String.ofList name, rest)

/-! ### Tags -/

/-- Characters of a tag. -/
def isTagChar (c : Char) : Bool :=
  isNameChar c ||
    [';', '/', '?', ':', '@', '&', '=', '+', '$', '.', ',', '!', '~', '*', '\'', '(', ')', '[', ']'].contains c

/-- The octet that two hexadecimal digits stand for. -/
def octet? (high low : Char) : Option Nat := do return (← Text.digitIn 16 high) * 16 + (← Text.digitIn 16 low)

/-- Characters of a tag.  The octets of others are escaped with a per cent sign; `left` octets are still to come of a
character of which `octets` are known. -/
def readTagText (left : Nat) (octets : List Nat) : List Spot → Option (List Char × List Spot)
  | [] => if left = 0 then some ([], []) else none
  | s :: rest =>
    if s.char == '%' then
      match rest with
      | high :: low :: rest =>
        match octet? high.char low.char with
        | none => none
        | some o =>
          let width := if left = 0 then Text.utf8Width o else left
          if width = 0 || (left != 0 && !Text.isTrailing o) then none
          else if width = 1 then
            (readTagText 0 [] rest).map fun (cs, rest) => ((Text.ofOctets (octets ++ [o])).toList ++ cs, rest)
          else readTagText (width - 1) (octets ++ [o]) rest
      | _ => none
    else if left != 0 then none
    else if isTagChar s.char then (readTagText 0 [] rest).map fun (cs, rest) => (s.char :: cs, rest)
    else some ([], s :: rest)

/-- Characters of a tag, at least one. -/
def readTagWord (spots : List Spot) : Option (String × List Spot) :=
  match readTagText 0 [] spots with
  | some (c :: cs, rest) => some (String.ofList (c :: cs), rest)
  | _ => none

/-- A tag in angle brackets. -/
def readFullTag (spots : List Spot) : Option (Lexeme × List Spot) :=
  match readTagWord spots with
  | some (name, s :: rest) => if s.char == '>' then some (.tag "" name, rest) else none
  | _ => none

/-- A tag without brackets.  A word between two exclamation marks is a handle; otherwise the first mark is the handle,
and alone it is a tag of its own. -/
def readShortTag (spots : List Spot) : Option (Lexeme × List Spot) :=
  match nameHere spots with
  | (word, rest) =>
    if rest.head?.any fun s => s.char == '!' then
      (readTagWord rest.tail).map fun (name, rest) => (.tag ("!" ++ String.ofList word ++ "!") name, rest)
    else
      (readTagText 0 [] rest).map fun (cs, rest) =>
        let name := String.ofList (word ++ cs)
        (if name.isEmpty then .tag "" "!" else .tag "!" name, rest)

/-- A tag, read from behind its exclamation mark. -/
def readTag (spots : List Spot) : Option (Lexeme × List Spot) :=
  let result := if spots.head?.any fun s => s.char == '<' then readFullTag spots.tail else readShortTag spots
  result.filter fun r => Spot.atGap r.2

/-! ### Directives -/

/-- A number of one or two digits. -/
def readVersionNumber (spots : List Spot) : Option (Nat × List Spot) :=
  let digits := spots.takeWhile fun s => s.char.isDigit
  if digits.length ≤ 2 then
    (Text.readNat 10 (digits.map Spot.char)).map fun n => (n, spots.dropWhile fun s => s.char.isDigit)
  else none

/-- The version of the format. -/
def readVersion (spots : List Spot) : Option (Lexeme × List Spot) :=
  match readVersionNumber (spots.dropWhile Spot.isBlank) with
  | some (major, s :: rest) =>
    if s.char == '.' then (readVersionNumber rest).map fun (minor, rest) => (.version major minor, rest) else none
  | _ => none

/-- The handle of a directive: an exclamation mark, or a word between two. -/
def readHandle : List Spot → Option (String × List Spot)
  | [] => none
  | s :: rest =>
    if s.char != '!' then none
    else
      match nameHere rest with
      | (word, t :: rest') =>
        if t.char == '!' then some ("!" ++ String.ofList word ++ "!", rest')
        else if word.isEmpty then some ("!", t :: rest')
        else none
      | (_, []) => none

/-- A handle and the stem it stands for. -/
def readStem (spots : List Spot) : Option (Lexeme × List Spot) :=
  match readHandle (spots.dropWhile Spot.isBlank) with
  | some (handle, s :: rest) =>
    if s.isBlank then
      ((readTagWord (rest.dropWhile Spot.isBlank)).map fun (stem, rest) => (Lexeme.handle handle stem, rest)).filter
        fun r => Spot.atGap r.2
    else none
  | _ => none

/-- The rest of the line of a directive: blanks, and a comment. -/
def skipLine (spots : List Spot) : Option (List Spot) :=
  match spots.dropWhile Spot.isBlank with
  | [] => some []
  | s :: rest =>
    if s.isBreak then some rest
    else if s.char == '#' then some (rest.dropWhile fun t => !t.isBreak).tail
    else none

/-- A directive, read from behind its per cent sign, and the lines below it. -/
def readDirective (spots : List Spot) : Option (Lexeme × List Spot) :=
  let (name, rest) := nameHere spots
  if !Spot.atGap rest then none
  else
    let result :=
      match String.ofList name with
      | "YAML" => readVersion rest
      | "TAG" => readStem rest
      | _ => none
    match result with
    | some (l, rest) => (skipLine rest).map (l, ·)
    | none => none

end Narrowing.Yaml
