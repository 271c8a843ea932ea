/-!
# Texts of octets

Octets become characters by the rules of UTF-8: the shortest form only, and no surrogates.  An octet that belongs to no
character is stray.  It stays in the text as a character of its own, one of 256 that are set aside for it among those
for private use.
-/

namespace Narrowing.Text

/-- The character that a stray octet becomes. -/
def stray (octet : Nat) : Char := Char.ofNat (0x10e000 + octet % 256)

/-- The stray octet that a character stands for. -/
def strayOctet? (c : Char) : Option Nat :=
  if 0x10e000 ≤ c.toNat && c.toNat < 0x10e100 then some (c.toNat - 0x10e000) else none

/-- A text for readers that know no stray octets: the replacement character stands for each. -/
def withoutStrays (s : String) : String := s.map fun c => if (strayOctet? c).isSome then '\ufffd' else c

/-- How many octets the character has that starts with the given one; none has 0. -/
def utf8Width (octet : Nat) : Nat :=
  if octet < 0x80 then 1
  else if 0xc0 ≤ octet && octet < 0xe0 then 2
  else if 0xe0 ≤ octet && octet < 0xf0 then 3
  else if 0xf0 ≤ octet && octet < 0xf8 then 4
  else 0

/-- An octet that goes on with a character. -/
def isTrailing (octet : Nat) : Bool := 0x80 ≤ octet && octet < 0xc0

/-- The code point of a leading octet, of a character of the given width, and the octets behind it. -/
def codePoint (width lead : Nat) (trail : List Nat) : Nat :=
  trail.foldl (fun n o => n * 64 + o % 64) (lead % [1, 128, 32, 16, 8].getD width 1)

/-- The character that some octets are, if they are one. -/
def charOf? : List Nat → Option Char
  | [] => none
  | lead :: trail =>
    let width := utf8Width lead
    let n := codePoint width lead trail
    let least := [0, 0, 0x80, 0x800, 0x10000].getD width 0
    if width = trail.length + 1 && trail.all isTrailing && least ≤ n && n.isValidChar then some (Char.ofNat n) else none

/-- The characters of some octets, as many steps as there are octets. -/
def charsFrom : Nat → List Nat → List Char
  | 0, _ | _, [] => []
  | n + 1, o :: rest =>
    let width := utf8Width o
    match charOf? ((o :: rest).take width) with
    | some c => c :: charsFrom n (rest.drop (width - 1))
    | none => stray o :: charsFrom n rest

/-- The text of some octets. -/
def ofOctets (octets : List Nat) : String := String.ofList (charsFrom octets.length octets)

end Narrowing.Text
