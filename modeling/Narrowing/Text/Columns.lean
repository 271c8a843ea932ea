import Narrowing.Text.Blank

/-!
# Columns

Padding to a width, counted in characters, and texts whose columns line up.

In a text with columns, tabs end the cells of a line, and what stands behind the last tab is in no column.  A column is a
run of lines that follow each other and have a cell at the same place: the cells in it are made as wide as the widest,
and one blank wider.  A form feed ends a line as a line feed does, and all columns with it.
-/

namespace Narrowing.Text

/-- Blanks behind a text up to a width. -/
def padRight (width : Nat) (s : String) : String :=
  s ++ String.ofList (List.replicate (width - s.length) ' ')

/-- Blanks before a text up to a width. -/
def padLeft (width : Nat) (s : String) : String :=
  String.ofList (List.replicate (width - s.length) ' ') ++ s

/-- A line of a text with columns. -/
structure Line where
  cells : List String
  /-- What stands behind the last cell. -/
  rest : String
  deriving DecidableEq, Repr

/-- The cells of a line; vertical tabs count as tabs. -/
def Line.ofChars (s : List Char) : Line :=
  let ps := (pieces (fun c => c == '\t' || c == '\x0b') s).map String.ofList
  ⟨ps.dropLast, ps.getLastD ""⟩

/-- A line with its cells at the given widths, each with one blank more. -/
def Line.aligned (width : Nat → Nat) (l : Line) : String :=
  String.join (l.cells.mapIdx fun j cell => padRight (width j + 1) cell) ++ l.rest ++ "\n"

/-- The width of the column that runs through line `i` at place `j`. -/
def columnWidth (ls : List Line) (i j : Nat) : Nat :=
  let goesOn (l : Line) : Bool := j < l.cells.length
  let column := (ls.take i).reverse.takeWhile goesOn ++ (ls.drop i).takeWhile goesOn
  (column.map fun l => (l.cells.getD j "").length).foldl max 0

/-- Lines with their columns lined up. -/
def alignLines (ls : List Line) : String := String.join (ls.mapIdx fun i l => l.aligned (columnWidth ls i))

/-- The lines of a text, those up to each form feed together.  The last line ends like the others. -/
def sections (s : List Char) : List (List Line) :=
  let parts := (pieces (· == '\x0c') s).map (pieces (· == '\n'))
  (parts.dropLast ++ [(parts.getLastD []).dropLast]).map (·.map Line.ofChars)

/-- A text with its columns lined up. -/
def alignColumns (text : String) : String := String.join ((sections text.toList).map alignLines)

end Narrowing.Text
