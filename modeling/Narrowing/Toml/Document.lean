import Narrowing.Toml.Reader

/-!
# Documents

The statements of a text build a tree of tables.  Keys with several parts make the tables on the way; such a table is
implicit, and may still be given a header or be extended once.  A key must not be set twice, unless its value is an
array.

Beside the tree the document keeps the keys in the order in which they were written.
-/

namespace Narrowing.Toml

/-- A value in the tree. -/
inductive Value where
  | text (s : String)
  | int (n : Int)
  | float
  | bool (b : Bool)
  | date
  | array (items : List Value)
  | table (entries : List (String × Value))
  /-- The tables of the rows with one key, in order. -/
  | rows (tables : List (List (String × Value)))
  deriving Repr, Inhabited

/-- The entries of a table. -/
abbrev Table := List (String × Value)

namespace Table

/-- Set a key, at its old place if it has one. -/
def set (key : String) (v : Value) : Table → Table
  | [] => [(key, v)]
  | (k, w) :: t => if k == key then (k, v) :: t else (k, w) :: set key v t

/-- Change the table that the parts of a key lead to; of the rows, the last one counts. -/
def modifyAt? (f : Table → Option Table) : Key → Table → Option Table
  | [], t => f t
  | k :: ks, t =>
    match t.lookup k with
    | some (.table u) => (modifyAt? f ks u).map fun u => set k (.table u) t
    | some (.rows us) =>
      match us.getLast? with
      | some u => (modifyAt? f ks u).map fun u => set k (.rows (us.dropLast ++ [u])) t
      | none => none
    | _ => none

/-- The table that the parts of a key lead to. -/
def at? : Key → Table → Option Table
  | [], t => some t
  | k :: ks, t =>
    match t.lookup k with
    | some (.table u) => at? ks u
    | some (.rows us) => us.getLast?.bind (at? ks)
    | _ => none

end Table

/-- A document, also while it is being built. -/
structure Document where
  root : Table := []
  /-- The keys in the order in which they were written. -/
  keys : List Key := []
  /-- The keys of the tables that were made on the way to others. -/
  implicit : List Key := []
  /-- The keys whose values are arrays. -/
  arrays : List Key := []
  deriving Repr, Inhabited

/-- Building; nothing if the statements contradict each other. -/
abbrev Building := StateT Document Option

namespace Building

def markImplicit (key : Key) : Building PUnit := modify fun d => { d with implicit := key :: d.implicit }

/-- Note whether the value of a key is an array. -/
def markKind (key : Key) (isArray : Bool) : Building PUnit :=
  modify fun d => { d with arrays := if isArray then key :: d.arrays else d.arrays.filter (· != key) }

/-- Note whether the value of a key in the table at a place is an array.  For an empty key it is noted of the table. -/
def markEntryKind (place : Key) (key : String) (isArray : Bool) : Building PUnit :=
  markKind (if key.isEmpty && !place.isEmpty then place else place ++ [key]) isArray

/-- Set a key in the table at a place.  An array gives way to the value, and an implicit table stays as it is and is
implicit no more; any other value stands in the way. -/
def put (place : Key) (key : String) (v : Value) : Building PUnit := do
  let d ← get
  let full := place ++ [key]
  match Table.at? place d.root with
  | none => failure
  | some t =>
    match t.lookup key with
    | none =>
      match Table.modifyAt? (fun t => some (Table.set key v t)) place d.root with
      | some root => set { d with root }
      | none => failure
    | some _ =>
      let implicit := d.implicit.filter (· != full)
      if d.arrays.contains full then
        match Table.modifyAt? (fun t => some (Table.set key v t)) place d.root with
        | some root => set { d with root, implicit }
        | none => failure
      else if d.implicit.contains full then set { d with implicit }
      else failure

/-- Make the tables on the way to a key that are not there yet. -/
def makeWay (done : Key) : Key → Building PUnit
  | [] => return ()
  | k :: ks => do
    match (Table.at? done (← get).root).bind (·.lookup k) with
    | none =>
      markImplicit (done ++ [k])
      modify fun d =>
        { d with root := (Table.modifyAt? (fun t => some (Table.set k (.table []) t)) done d.root).getD d.root }
    | some (.table _) | some (.rows _) => pure ()
    | some _ => failure
    makeWay (done ++ [k]) ks

/-- Open a table, or a new row of tables. -/
def enter (key : Key) (isRow : Bool) : Building PUnit := do
  match key.getLast? with
  | none => failure
  | some last =>
    let place := key.dropLast
    makeWay [] place
    if isRow then
      let d ← get
      let addRow (t : Table) : Option Table :=
        match t.lookup last with
        | none => some (Table.set last (.rows [[]]) t)
        | some (.rows us) => some (Table.set last (.rows (us ++ [[]])) t)
        | some _ => none
      match Table.modifyAt? addRow place d.root with
      | some root => set { d with root }
      | none => failure
    else put place last (.table [])

/-- Open the tables that the leading parts of a key name, one after the other. -/
def enterEach (place : Key) : Key → Building Key
  | [] => return place
  | k :: ks => do
    let full := place ++ [k]
    markImplicit full
    enter full false
    enterEach full ks

/-- An entry of the table at a place, by how its value is built at the place of its last part. -/
def entry (place key : Key) (isArray : Bool) (build : Key → String → Building Value) : Building PUnit := do
  match key.getLast? with
  | none => failure
  | some last =>
    let place ← enterEach place key.dropLast
    modify fun d => { d with keys := d.keys ++ [place ++ [last]] }
    put place last (← build place last)
    markEntryKind place last isArray

mutual

/-- The value that a literal gives the key at a place; tables inside it are built where they stand. -/
def literal (inArray : Bool) (place : Key) (key : String) : Literal → Building Value
  | .text s => return .text s
  | .int n => return .int n
  | .float => return .float
  | .bool b => return .bool b
  | .date => return .date
  | .array items => do
    markEntryKind place key true
    return .array (← literals place key items)
  | .inline entries => do
    let full := place ++ [key]
    markImplicit full
    enter full inArray
    inline full entries
    return .table []

def literals (place : Key) (key : String) : List Literal → Building (List Value)
  | [] => return []
  | l :: ls => do
    let v ← literal true place key l
    return v :: (← literals place key ls)

/-- The entries of an inline table. -/
def inline (place : Key) : List (Key × Literal) → Building PUnit
  | [] => return ()
  | (k, l) :: es => do
    entry place k (l matches .array _) fun place last => literal false place last l
    inline place es

end

/-- Statements, the entries among them in the table at the given place. -/
def statements (place : Key) : List Statement → Building PUnit
  | [] => return ()
  | .table key :: ss => do
    enter key false
    markKind key false
    modify fun d => { d with keys := d.keys ++ [key] }
    statements key ss
  | .row key :: ss => do
    enter key true
    markKind key false
    modify fun d => { d with keys := d.keys ++ [key] }
    statements key ss
  | .entry key l :: ss => do
    entry place key (l matches .array _) fun place last => literal false place last l
    statements place ss

end Building

/-- The document a text describes, if it is TOML. -/
def Document.read? (text : String) : Option Document :=
  match Statement.readAll? text with
  | none => none
  | some ss => ((Building.statements [] ss).run {}).map (·.2)

/-! ### Keys in messages -/

/-- A character of a quoted part of a key. -/
def quotedChar (c : Char) : String :=
  match c with
  | '"' => "\\\""
  | '\\' => "\\\\"
  | '\x08' => "\\b"
  | '\t' => "\\t"
  | '\n' => "\\n"
  | '\x0c' => "\\f"
  | '\r' => "\\r"
  | c =>
    if c.toNat < 0x20 || c.toNat == 0x7f then
      "\\u00" ++ String.ofList [Nat.digitChar (c.toNat / 16), Nat.digitChar (c.toNat % 16)]
    else String.singleton c

/-- A part of a key, quoted unless it is a bare name. -/
def partText (s : String) : String :=
  if !s.isEmpty && s.toList.all Reading.isBareChar then s
  else "\"" ++ String.join (s.toList.map quotedChar) ++ "\""

def Key.text (k : Key) : String := ".".intercalate (k.map partText)

end Narrowing.Toml
