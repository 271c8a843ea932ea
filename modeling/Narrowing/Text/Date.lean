import Narrowing.Text.Numeral

/-!
# Dates and times

Readers for the parts of a date or a time of day; each gives what follows the part.  Where `isPadded` holds, months,
days, minutes and seconds have two digits, and otherwise one or two.  Hours always have one or two.
-/

namespace Narrowing.Text

/-- A number of one or two digits. -/
def readPair (isPadded : Bool) : List Char → Option (Nat × List Char)
  | a :: b :: cs =>
    if !a.isDigit then none
    else if b.isDigit then some ((a.toNat - 48) * 10 + (b.toNat - 48), cs)
    else if isPadded then none
    else some (a.toNat - 48, b :: cs)
  | [a] => if a.isDigit && !isPadded then some (a.toNat - 48, []) else none
  | [] => none

/-- A number of one or two digits below a limit. -/
def readBelow (isPadded : Bool) (limit : Nat) (cs : List Char) : Option (List Char) :=
  match readPair isPadded cs with
  | some (n, rest) => if n < limit then some rest else none
  | none => none

/-- The given character. -/
def readMark (c : Char) : List Char → Option (List Char)
  | d :: cs => if c == d then some cs else none
  | [] => none

def isLeapYear (year : Nat) : Bool := year % 4 == 0 && (year % 100 != 0 || year % 400 == 0)

def daysIn (year month : Nat) : Nat :=
  if month == 2 then (if isLeapYear year then 29 else 28)
  else if [4, 6, 9, 11].contains month then 30
  else 31

/-- A day of the calendar, its year in four digits. -/
def readDate (isPadded : Bool) (cs : List Char) : Option (List Char) := do
  let year := cs.takeWhile Char.isDigit
  let cs ← readMark '-' (cs.dropWhile Char.isDigit)
  let (month, cs) ← readPair isPadded cs
  let cs ← readMark '-' cs
  let (day, cs) ← readPair isPadded cs
  if year.length == 4 && 1 ≤ month && month ≤ 12 && 1 ≤ day && day ≤ daysIn ((readNat 10 year).getD 0) month then
    return cs
  else none

/-- A time of day, with or without a fraction of a second. -/
def readClock (isPadded : Bool) (cs : List Char) : Option (List Char) := do
  let cs ← readBelow false 24 cs
  let cs ← readMark ':' cs
  let cs ← readBelow isPadded 60 cs
  let cs ← readMark ':' cs
  let cs ← readBelow isPadded 60 cs
  match cs with
  | c :: d :: rest => return if (c == '.' || c == ',') && d.isDigit then rest.dropWhile Char.isDigit else cs
  | _ => return cs

/-- Whether a text is a time zone. -/
def isZone : List Char → Bool
  | ['Z'] => true
  | [s, a, b, ':', c, d] =>
    (s == '+' || s == '-') && [a, b, c, d].all Char.isDigit &&
      (a.toNat - 48) * 10 + (b.toNat - 48) ≤ 24 && (c.toNat - 48) * 10 + (d.toNat - 48) ≤ 60
  | _ => false

end Narrowing.Text
