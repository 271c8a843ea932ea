import Narrowing.Toml.Literal

/-!
# Reading statements

A TOML text is a list of statements, one on a line: headers of tables, headers of rows of tables, and entries.  The
meaning of the list is a matter of its own (`Toml.Document`); here only its form counts.
-/

namespace Narrowing.Toml

/-- A line of a text. -/
inductive Statement where
  /-- The following entries belong to the table with the key. -/
  | table (key : Key)
  /-- The following entries belong to a new row of the tables with the key. -/
  | row (key : Key)
  | entry (key : Key) (value : Literal)
  deriving Repr, Inhabited

/-- Characters a text may hold. -/
def isAllowed (c : Char) : Bool :=
  c == '\t' || c == '\n' || c == '\r' || (0x20 ≤ c.toNat && c.toNat != 0x7f && c.toNat != 0xfffd)

/-- Whether a line feed follows each carriage return. -/
def hasPairedReturns : List Char → Bool
  | [] => true
  | '\r' :: '\n' :: cs => hasPairedReturns cs
  | c :: cs => c != '\r' && hasPairedReturns cs

/-- Reading takes characters from the front of a text; nothing if the text is not of the right form. -/
abbrev Reading := StateT (List Char) Option

namespace Reading

def isBlank (c : Char) : Bool := c == ' ' || c == '\t'

def skipBlanks : Reading PUnit := modify (·.dropWhile isBlank)

/-- What is left without the blanks, line ends and comments at its start. -/
def dropGaps (inComment : Bool) : List Char → List Char
  | [] => []
  | c :: cs =>
    if c == '\n' || c == '\r' then dropGaps false cs
    else if inComment || isBlank c then dropGaps inComment cs
    else if c == '#' then dropGaps true cs
    else c :: cs

/-- The next character, if there is one. -/
def peek? : Reading (Option Char) := do return (← get).head?

/-- Take the given character. -/
def take (c : Char) : Reading PUnit := do
  match ← get with
  | d :: cs => if c == d then set cs else failure
  | [] => failure

/-- Run a reader of literals. -/
def read {α : Type} (f : List Char → Option (α × List Char)) : Reading α := do
  match f (← get) with
  | some (a, rest) =>
    set rest
    return a
  | none => failure

/-! ### Keys -/

def isBareChar (c : Char) : Bool := c.isAlphanum || c == '_' || c == '-'

/-- A part of a key: a bare name or a string on one line. -/
def keyPart : List Char → Option (String × List Char)
  | '"' :: cs => (readBasic .text [] cs).map fun r => (String.ofList r.1, r.2)
  | '\'' :: cs => (readRaw [] cs).map fun r => (String.ofList r.1, r.2)
  | cs =>
    let (name, rest) := splitWhile isBareChar cs
    if name.isEmpty then none else some (String.ofList name, rest)

/-- The parts of a key, with points between them.  Each takes a character, so that as many rounds as there are
characters are enough; so it is for everything below. -/
def key : Nat → Reading Key
  | 0 => failure
  | fuel + 1 => do
    skipBlanks
    let part ← read keyPart
    skipBlanks
    if (← peek?) = some '.' then
      take '.'
      return part :: (← key fuel)
    else return [part]

/-! ### Values -/

mutual

/-- A value. -/
def value : Nat → Reading Literal
  | 0 => failure
  | fuel + 1 => do
    skipBlanks
    match ← peek? with
    | some '[' =>
      take '['
      return .array (← arrayItems fuel)
    | some '\x7b' =>
      take '\x7b'
      skipBlanks
      if (← peek?) = some '\x7d' then
        take '\x7d'
        return .inline []
      else return .inline (← inlineEntries fuel)
    | _ => read readAtom

/-- The items of an array, from behind its bracket or a comma. -/
def arrayItems : Nat → Reading (List Literal)
  | 0 => failure
  | fuel + 1 => do
    modify (dropGaps false)
    if (← peek?) = some ']' then
      take ']'
      return []
    else
      let item ← value fuel
      modify (dropGaps false)
      if (← peek?) = some ',' then
        take ','
        return item :: (← arrayItems fuel)
      else
        take ']'
        return [item]

/-- The entries of an inline table, on one line. -/
def inlineEntries : Nat → Reading (List (Key × Literal))
  | 0 => failure
  | fuel + 1 => do
    let k ← key fuel
    take '='
    let v ← value fuel
    skipBlanks
    if (← peek?) = some ',' then
      take ','
      return (k, v) :: (← inlineEntries fuel)
    else
      take '\x7d'
      return [(k, v)]

end

/-! ### Lines -/

/-- A statement. -/
def statement (fuel : Nat) : Reading Statement := do
  match ← get with
  | '[' :: '[' :: cs =>
    set cs
    let k ← key fuel
    take ']'
    take ']'
    return .row k
  | '[' :: cs =>
    set cs
    let k ← key fuel
    take ']'
    return .table k
  | _ =>
    let k ← key fuel
    take '='
    return .entry k (← value fuel)

/-- The end of a line behind a statement; a comment is left for later. -/
def lineEnd : Reading PUnit := do
  skipBlanks
  match ← peek? with
  | none => return ()
  | some c => if c == '\n' || c == '\r' || c == '#' then return () else failure

/-- All statements. -/
def statements : Nat → Reading (List Statement)
  | 0 => failure
  | fuel + 1 => do
    modify (dropGaps false)
    if (← get).isEmpty then return []
    else
      let s ← statement fuel
      lineEnd
      return s :: (← statements fuel)

end Reading

/-- The statements of a text, if it is TOML; a byte order mark at its start does not count. -/
def Statement.readAll? (text : String) : Option (List Statement) :=
  let cs := text.toList
  let cs := if cs.head? = some '\ufeff' then cs.tail else cs
  if cs.all isAllowed && hasPairedReturns cs then
    ((Reading.statements (2 * cs.length + 2)).run cs).map (·.1)
  else none

end Narrowing.Toml
