import Narrowing.Text.Numeral

/-!
# Decimal numbers

Numbers with a fraction or an exponent.  Only two things are asked of them here: whether a text is one, and whether it
is small enough for a double-precision number.
-/

namespace Narrowing.Text

/-- The parts of a decimal number without its sign: digits, how many of them follow the point, exponent. -/
structure Decimal where
  digits : List Char
  places : Nat
  exponent : Int
  deriving DecidableEq, Repr

/-- A decimal number with digits before or after the point. -/
def Decimal.read? (cs : List Char) : Option Decimal :=
  let (_, cs) := splitSign cs
  let whole := cs.takeWhile Char.isDigit
  let rest := cs.dropWhile Char.isDigit
  let (fraction, rest) :=
    match rest with
    | '.' :: r => (r.takeWhile Char.isDigit, r.dropWhile Char.isDigit)
    | r => ([], r)
  if whole.isEmpty && fraction.isEmpty then none
  else
    match rest with
    | [] => some ⟨whole ++ fraction, fraction.length, 0⟩
    | e :: r =>
      if e == 'e' || e == 'E' then (readInt r).map fun x => ⟨whole ++ fraction, fraction.length, x⟩ else none

/-- The least number that rounds to infinity at 53 bits. -/
def overflowLimit : Nat := Nat.pow 2 1024 - Nat.pow 2 970

/-- Whether the number does not overflow a double-precision number. -/
def Decimal.isFinite (d : Decimal) : Bool :=
  let significant := d.digits.dropWhile (· == '0')
  let n := (readNat 10 significant).getD 0
  let scale := d.exponent - d.places
  let magnitude := scale + significant.length
  if n == 0 || magnitude < 300 then true
  else if 320 < magnitude then false
  else if 0 ≤ scale then decide (n * Nat.pow 10 scale.toNat < overflowLimit)
  else decide (n < overflowLimit * Nat.pow 10 (-scale).toNat)

/-- Whether a text is a decimal number in double-precision range. -/
def isDecimal (cs : List Char) : Bool := (Decimal.read? cs).any Decimal.isFinite

end Narrowing.Text
