import Narrowing.Analysis.Result
import Narrowing.Emit.File

/-!
# Compiling files

Every unit of a file is analysed, and functions are printed as C.  Units do not depend on each other and may be done in
any order; each outcome goes to the place of its unit on a board.  Nothing is written before all units are done, and the
C text only if all of them succeeded.
-/

namespace Narrowing

/-- Why a unit or the writing of its output failed. -/
inductive CompileError where
  | analysis (e : AnalysisError)
  | emission (e : EmitError)
  | frames (reason : String)
  | output (e : WriteError)

/-- What became of a unit. -/
structure UnitOutcome where
  result : Option AnalysisResult := none
  text : Option String := none
  error : Option CompileError := none

/-- How to compile. -/
structure CompileOptions where
  selector : Selector := .default
  maxJoins : Int := 0
  layout : Layout := {}

/-- Compile one unit.  A type gives no text; its invariant is analysed for the errors in it. -/
def Decl.compile (o : CompileOptions) : Decl → UnitOutcome
  | type t =>
    match t.analyze o.maxJoins with
    | .ok r => { result := some r }
    | .error e => { error := some (.analysis e) }
  | function f =>
    match f.analyze o.maxJoins with
    | .error e => { error := some (.analysis e) }
    | .ok r =>
      match f.emit (some r) o.selector o.layout with
      | .ok text => { result := some r, text := some text }
      | .error e => { result := some r, error := some (.emission e) }

/-! ### The board -/

/-- The outcomes of the units, by place, as far as they are known. -/
abbrev Board := List UnitOutcome

/-- The board before any unit is done. -/
def Board.blank (decls : List Decl) : Board := decls.map fun _ => {}

/-- The unit at a place is done. -/
def Board.complete (o : CompileOptions) (decls : List Decl) (b : Board) (place : Nat) : Board :=
  match decls[place]? with
  | some d => b.set place (d.compile o)
  | none => b

/-- The board after the units were done in the given order. -/
def Board.after (o : CompileOptions) (decls : List Decl) (order : List Nat) : Board :=
  order.foldl (Board.complete o decls) (Board.blank decls)

/-- The frame tables of the units with a result. -/
def Board.tables (b : Board) : List String := b.filterMap fun u => u.result.map AnalysisResult.table

/-- The error of the first unit that failed. -/
def Board.firstError? (b : Board) : Option CompileError := b.findSome? UnitOutcome.error

/-- The names and texts of the functions. -/
def Board.texts (decls : List Decl) (b : Board) : List (String × String) :=
  (decls.zip b).filterMap fun (d, u) => u.text.map fun t => (d.name, t)

/-! ### Frame tables -/

/-- A place that frame tables go to.  A table goes out in pieces.  A piece that is lost need not be an error, and may be
sent again, so the place says of a whole table, after those before it, what arrives and why it is an error, if it is. -/
structure TableSink where
  receive : (earlier : List String) → (table : String) → String × Option String

namespace TableSink

/-- Every table arrives as it is. -/
def whole : TableSink := ⟨fun _ table => (table, none)⟩

/-- Nothing arrives. -/
def closed (reason : String) : TableSink := ⟨fun _ _ => ("", some reason)⟩

/-- The place as it is behind a table. -/
def behind (s : TableSink) (table : String) : TableSink := ⟨fun earlier => s.receive (table :: earlier)⟩

/-- Write tables until one is an error: what arrives, and that error. -/
def write (s : TableSink) : List String → String × Option String
  | [] => ("", none)
  | table :: tables =>
    match s.receive [] table with
    | (text, some reason) => (text, some reason)
    | (text, none) =>
      let (rest, failure) := (s.behind table).write tables
      (text ++ rest, failure)

end TableSink

/-! ### Compilation -/

/-- What a compilation wrote, and why it failed. -/
structure Compilation where
  output : String := ""
  frames : String := ""
  error : Option CompileError := none

/-- Write out what is on the board: the frame tables, if they are wanted, then the C text to the sink. -/
def Board.publish (o : CompileOptions) (decls : List Decl) (frames : Option TableSink) (sink : Sink)
    (b : Board) : Compilation :=
  let (tables, failure) :=
    match frames with
    | some s => s.write b.tables
    | none => ("", none)
  match failure with
  | some reason => { frames := tables, error := some (.frames reason) }
  | none =>
    match b.firstError? with
    | some e => { frames := tables, error := some e }
    | none =>
      let (text, failure) := sink.write (fileChunks o.layout (b.texts decls))
      { output := text, frames := tables, error := failure.map .output }

/-- Compile a file, its units in the given order. -/
def File.compileIn (order : List Nat) (f : File) (o : CompileOptions) (frames : Option TableSink) (sink : Sink) :
    Compilation :=
  (Board.after o f.decls order).publish o f.decls frames sink

/-- Compile a file, one unit after the other. -/
def File.compile (f : File) (o : CompileOptions) (frames : Option TableSink) (sink : Sink) : Compilation :=
  f.compileIn (List.range f.decls.length) o frames sink

/-- The message of an error; a fault may have none. -/
def CompileError.message : CompileError → Option String
  | analysis e => e.message
  | emission (.fault f) => f.message
  | emission (.unsupported u) => some u.message
  | frames reason => some ("writing frames: " ++ reason)
  | output e => some e.message

end Narrowing
