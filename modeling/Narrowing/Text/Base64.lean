/-!
# Base 64

Four characters of an alphabet of 64 are three octets.  Two or one at the end are filled up with equals signs; the bits
that are then left over do not count.  Line ends may stand anywhere.
-/

namespace Narrowing.Text

/-- The place of a character in the alphabet. -/
def sextet? (c : Char) : Option Nat :=
  if 'A' ≤ c ∧ c ≤ 'Z' then some (c.toNat - 'A'.toNat)
  else if 'a' ≤ c ∧ c ≤ 'z' then some (c.toNat - 'a'.toNat + 26)
  else if c.isDigit then some (c.toNat - '0'.toNat + 52)
  else if c == '+' then some 62
  else if c == '/' then some 63
  else none

/-- The octets of characters without line ends. -/
def fromSextets : List Char → Option (List Nat)
  | [] => some []
  | a :: b :: c :: d :: rest => do
    let x ← sextet? a
    let y ← sextet? b
    let first := x * 4 + y / 16
    if c == '=' then if d == '=' && rest.isEmpty then some [first] else none
    else
      let z ← sextet? c
      let second := y % 16 * 16 + z / 4
      if d == '=' then if rest.isEmpty then some [first, second] else none
      else
        let w ← sextet? d
        return first :: second :: (z % 4 * 64 + w) :: (← fromSextets rest)
  | _ => none

/-- The octets that a text stands for. -/
def fromBase64? (text : String) : Option (List Nat) :=
  fromSextets (text.toList.filter fun c => c != '\n' && c != '\r')

end Narrowing.Text
