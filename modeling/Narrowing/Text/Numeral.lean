/-!
# Numerals

Reading integers written in digits.  Underscores are no digits here, unlike in the numerals of Lean.
-/

namespace Narrowing.Text

/-- The value of a digit in some base up to 36. -/
def digitValue (c : Char) : Option Nat :=
  if c.isDigit then some (c.toNat - '0'.toNat)
  else if 'a' ≤ c ∧ c ≤ 'z' then some (c.toNat - 'a'.toNat + 10)
  else if 'A' ≤ c ∧ c ≤ 'Z' then some (c.toNat - 'A'.toNat + 10)
  else none

/-- The value of a digit in the given base. -/
def digitIn (base : Nat) (c : Char) : Option Nat :=
  (digitValue c).filter (· < base)

/-- The number written in the given base; at least one digit. -/
def readNat (base : Nat) (cs : List Char) : Option Nat :=
  if cs.isEmpty then none
  else cs.foldlM (fun n c => (digitIn base c).map fun d => n * base + d) 0

/-- A sign, if there is one, and what follows. -/
def splitSign : List Char → Option Bool × List Char
  | '+' :: cs => (some false, cs)
  | '-' :: cs => (some true, cs)
  | cs => (none, cs)

/-- The integer with the given sign; `some true` is a minus. -/
def signed (sign : Option Bool) (n : Nat) : Int :=
  if sign = some true then -(n : Int) else n

/-- A decimal integer with an optional sign. -/
def readInt (cs : List Char) : Option Int :=
  let (sign, digits) := splitSign cs
  (readNat 10 digits).map (signed sign)

/-- An integer of a signed word of 64 bits. -/
def isInt64 (n : Int) : Bool := decide (-0x8000000000000000 ≤ n) && decide (n < 0x8000000000000000)

/-- An integer below the numbers that an unsigned word of 64 bits cannot hold. -/
def isBelowWord64 (n : Int) : Bool := decide (n < 0x10000000000000000)

/-- A decimal integer with an optional sign that fits in 64 bits. -/
def readInt64 (cs : List Char) : Option Int := (readInt cs).filter isInt64

end Narrowing.Text
