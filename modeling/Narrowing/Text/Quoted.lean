import Narrowing.Text.Printable
import Narrowing.Text.Utf8

/-!
# Quoted texts

A text between double quotes, as messages show it.  Quotes and backslashes take a backslash, the seven usual control
characters their letter, and any other character that is not printable its code point in hexadecimal.  A stray octet is
shown as such.
-/

namespace Narrowing.Text

/-- A number in lower-case hexadecimal, with zeros in front up to the given width. -/
def hex (width n : Nat) : List Char :=
  let ds := Nat.toDigits 16 n
  List.replicate (width - ds.length) '0' ++ ds

/-- A character as it stands in a quoted text. -/
def quoteChar (c : Char) : List Char :=
  if c == '"' || c == '\\' then ['\\', c]
  else if isPrintable c then [c]
  else
    match c.toNat with
    | 0x07 => ['\\', 'a']
    | 0x08 => ['\\', 'b']
    | 0x0c => ['\\', 'f']
    | 0x0a => ['\\', 'n']
    | 0x0d => ['\\', 'r']
    | 0x09 => ['\\', 't']
    | 0x0b => ['\\', 'v']
    | n =>
      if n < 0x80 then '\\' :: 'x' :: hex 2 n
      else if n < 0x10000 then '\\' :: 'u' :: hex 4 n
      else
        match strayOctet? c with
        | some octet => '\\' :: 'x' :: hex 2 octet
        | none => '\\' :: 'U' :: hex 8 n

/-- A text between quotes. -/
def quote (s : String) : String :=
  String.ofList ('"' :: s.toList.flatMap quoteChar ++ ['"'])

end Narrowing.Text
