import Narrowing.Ty

/-!
# Kinds

A kind is a fixed-width C integer type.  A selector holds a table of kinds, narrowest first, and picks the first one
that holds an interval.
-/

namespace Narrowing

/-- The widths of the C integer types. -/
inductive Width where
  | w8
  | w16
  | w32
  | w64
  deriving DecidableEq, Repr

def Width.bits : Width → Nat
  | w8 => 8
  | w16 => 16
  | w32 => 32
  | w64 => 64

/-- A fixed-width C integer type. -/
structure Kind where
  width : Width
  signed : Bool
  deriving DecidableEq, Repr

namespace Kind

def bits (k : Kind) : Nat := k.width.bits

/-- The C name, such as `int16_t`. -/
def name (k : Kind) : String := (if k.signed then "int" else "uint") ++ toString k.bits ++ "_t"

/-- The name of the same integers as a nominal type, such as `i16`. -/
def nominal (k : Kind) : String := (if k.signed then "i" else "u") ++ toString k.bits

/-- The integers of a kind. -/
def range (k : Kind) : Interval := .ofWidth k.bits k.signed

/-- Every kind, narrowest first and unsigned before signed. -/
def all : List Kind :=
  [.w8, .w16, .w32, .w64].flatMap fun w => [⟨w, false⟩, ⟨w, true⟩]

/-- The kind with the given C name. -/
def ofName? (name : String) : Option Kind := all.find? (·.name == name)

/-- The kind of the nominal type with the given name. -/
def ofNominal? (name : String) : Option Kind := all.find? (·.nominal == name)

end Kind

/-- A table of kinds to choose from, at least one. -/
structure Selector where
  table : List Kind
  table_ne_nil : table ≠ []

namespace Selector

/-- The kinds in order of width; kinds of one width keep their order. -/
def sortByWidth (table : List Kind) : List Kind :=
  table.mergeSort fun a b => decide (a.bits ≤ b.bits)

/-- The selector of some kinds. -/
def ofKinds (kinds : List Kind) : Except Fault Selector :=
  if h : sortByWidth kinds = [] then .error .emptyTable else .ok ⟨sortByWidth kinds, h⟩

/-- The selector of all kinds. -/
def default : Selector :=
  ⟨sortByWidth Kind.all, by
    intro h
    have := congrArg List.length h
    simp [sortByWidth, List.length_mergeSort, Kind.all] at this⟩

instance : Inhabited Selector := ⟨default⟩

/-- The last of the widest kinds.  It stands for intervals with an infinite end, which no kind holds. -/
def fallback (s : Selector) : Kind := s.table.getLast s.table_ne_nil

/-- The first kind that holds the interval, or the fallback if an end is infinite. -/
def select (s : Selector) (r : Interval) : Option Kind :=
  match s.table.find? (·.range.contains r) with
  | some k => some k
  | none => if r.low.isInfinite || r.high.isInfinite then some s.fallback else none

/-- The values of an interval that a type admits; all values of the type if none of them is in the interval. -/
def clamp (r : Interval) : Ty → Interval
  | .nominal name =>
    match Kind.ofNominal? name with
    | some k => (r.inter? k.range).getD k.range
    | none => r
  | _ => r

/-- The kind for a variable of the given type whose values lie in the interval. -/
def selectFor (s : Selector) (r : Interval) (t : Ty) : Option Kind := s.select (clamp r t)

end Selector

end Narrowing
