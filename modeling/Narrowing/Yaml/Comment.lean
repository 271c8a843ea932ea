import Narrowing.Yaml.Spot

/-!
# Comments between tokens

Comments on lines of their own form groups, and a block ends in front of the first group behind it that stands at its
column.  A group ends where the comments move to another column to the left of the block, and at the first empty line if
it belongs to what is in front of it.

The line of a group is counted from the comment in front of it, whose own line end does not count.
-/

namespace Narrowing.Yaml

/-- A group of comments. -/
structure Comment where
  /-- Where it starts. -/
  start : Place
  /-- The index of its end. -/
  stop : Nat
  /-- The index of the end of the group in front of it, or of the token in front of all. -/
  origin : Nat
  deriving DecidableEq, Repr

namespace Comment

/-- What the search for comments knows of its surroundings. -/
structure Setting where
  /-- The column of the innermost block. -/
  indent : Nat
  inFlow : Bool
  /-- The line on which a group belongs to what is in front of it. -/
  footLine : Option Nat

/-- The groups found so far and the one at hand. -/
structure Search where
  /-- Complete groups, the last one first. -/
  groups : List Comment := []
  origin : Nat
  /-- Where the group at hand starts, if there is one. -/
  start : Option Place := none
  /-- No empty line was met yet. -/
  unbroken : Bool
  /-- The last line was empty. -/
  afterEmpty : Bool := false
  line : Nat
  column : Nat

namespace Search

/-- End the group at hand. -/
def close (q : Search) (index : Nat) : Search :=
  match q.start with
  | some start => { q with groups := ⟨start, index, q.origin⟩ :: q.groups, origin := index, start := none }
  | none => q

/-- At an empty line or at the end of the text a group ends that belongs to what is in front of it. -/
def closeFoot (c : Setting) (q : Search) (index : Nat) : Search :=
  if !q.afterEmpty && q.unbroken && q.start.any (fun p => c.footLine == some p.line || p.column < c.indent) then
    q.close index
  else q

/-- An empty line. -/
def lineEnd (c : Setting) (q : Search) (index : Nat) : Search :=
  { q.closeFoot c index with unbroken := false, afterEmpty := true, column := 0, line := q.line + 1 }

/-- A visible character to the left of the block ends a group that starts at another column. -/
def visible (c : Setting) (q : Search) (index : Nat) : Search :=
  if q.start.any (fun p => q.column < c.indent && q.column != p.column) then q.close index else q

/-- The groups, once the search stops at an index: the group at hand ends in front of it. -/
def result (q : Search) (index : Nat) : List Comment := (q.close (index - 1)).groups

/-- A comment starts. -/
def comment (q : Search) (index : Nat) : Search :=
  { q with start := some (q.start.getD ⟨index, q.line, q.column⟩), afterEmpty := false }

end Search

/-- How far the search looks behind a comment. -/
def reach : Nat := 512

/-- The groups of comments from here on, the last one first, and the spots behind the last comment.  `inside` a comment;
otherwise `here` are the spots behind the last one. -/
def search (c : Setting) (close : Nat) (q : Search) (inside : Bool) (here : List Spot) :
    List Spot → List Comment × List Spot
  | [] =>
    if inside then ((q.closeFoot c (close + 1)).result (close + 1), [])
    else ((q.closeFoot c close).result close, here)
  | s :: rest =>
    let index := s.place.index
    if inside then
      let q := { q with line := s.line, column := 0 }
      match s.lineEnd with
      | none => search c close q true here rest
      | some .single => search c close q false (s :: rest) rest
      | some .pair => search c close (q.lineEnd c (index + 1)) false (s :: rest) rest
      | some .wide => ((q.visible c (index + 1)).result (index + 1), s :: rest)
    else if here.head?.any (fun h => h.place.index + reach ≤ index) then (q.result index, here)
    else if s.isBlank then search c close { q with column := q.column + 1 } false here rest
    else if c.inFlow && (s.char == ']' || s.char == '\x7d') then ((q.close index).groups, here)
    else
      match s.lineEnd with
      | some .single => search c close (q.lineEnd c index) false here rest
      | some .pair => search c close ((q.lineEnd c index).lineEnd c (index + 1)) false here rest
      | some .wide =>
        let q := (q.lineEnd c index).visible c (index + 1)
        (q.result (index + 1), here)
      | none =>
        let q := q.visible c index
        if s.char == '#' then search c close (q.comment index) true here rest else (q.result index, here)

/-- Where a block at a column ends that would end at `mark`: at the first of the groups behind it that stands at the
column, if there is nothing between. -/
def blockEnd (column stop : Nat) (mark : Place) : List Comment → Place
  | [] => mark
  | c :: cs =>
    if c.stop < stop then mark
    else blockEnd column c.origin (if c.start.column == column then c.start else mark) cs

end Comment

end Narrowing.Yaml
