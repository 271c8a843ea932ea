import Narrowing.Analysis.Walk
import Narrowing.Decl
import Narrowing.Text.Columns

/-!
# Range analysis of units

The body of a function is analysed from the frame that gives each integer parameter the values of its type.  Its
preconditions are walked first, each from the frame that left the one before it; if none leaves, the body is never
reached.
-/

namespace Narrowing

/-- The frames of a body, point by point in address order. -/
structure AnalysisResult where
  unit : String
  flow : Flow
  frames : List (Option Frame)
  deriving Repr

/-- How often a frame may be replaced before it is widened, unless asked otherwise. -/
def defaultMaxJoins : Nat := 8

/-- The limit that is asked for, if it is positive. -/
def joinLimit (maxJoins : Int) : Nat := if 0 < maxJoins then maxJoins.toNat else defaultMaxJoins

/-- A block of a unit as a task of the walk. -/
def Task.ofBlock (unit : String) (vars : List Variable) (maxJoins : Int) (b : Option Block) : Task where
  unit := unit
  flow := .ofBlock b
  isInteger n := (variableAt? vars n).any (·.type.isInteger)
  limit := joinLimit maxJoins

/-- Walk a block from the frame that reaches its first point. -/
def Task.run (t : Task) (f : Frame) : Except AnalysisError Walk := (Walk.start t.flow.points.length f).run t

/-- The frames at the end of a walk. -/
def Task.result (t : Task) (w : Walk) : AnalysisResult := ⟨t.unit, t.flow, w.cells.map Cell.frame⟩

namespace FunctionDecl

/-- The frame before the first precondition. -/
def initialFrame (f : FunctionDecl) : Frame :=
  ⟨f.params.map (·.type.range?) ++ f.locals.map fun _ => none⟩

/-- The task of a block of the function. -/
def task (f : FunctionDecl) (maxJoins : Int) (b : Option Block) : Task := .ofBlock f.name f.vars maxJoins b

/-- The frame behind some preconditions, if any is left. -/
def assume (f : FunctionDecl) (maxJoins : Int) (frame : Frame) :
    List (Option Block) → Except AnalysisError (Option Frame)
  | [] => .ok (some frame)
  | b :: bs => do
    let w ← (f.task maxJoins b).run frame
    match w.exit with
    | none => return none
    | some left => f.assume maxJoins left bs

/-- Analyse the body of a function. -/
def analyze (f : FunctionDecl) (maxJoins : Int) : Except AnalysisError AnalysisResult := do
  let t := f.task maxJoins f.code
  match ← f.assume maxJoins f.initialFrame f.preconditions with
  | none => return ⟨t.unit, t.flow, t.flow.points.map fun _ => none⟩
  | some frame => return t.result (← t.run frame)

end FunctionDecl

namespace TypeDecl

/-- The frame before the invariant. -/
def initialFrame (t : TypeDecl) : Frame := ⟨t.type.range? :: t.locals.map fun _ => none⟩

/-- Analyse the invariant of a type. -/
def analyze (t : TypeDecl) (maxJoins : Int) : Except AnalysisError AnalysisResult := do
  let task := Task.ofBlock t.name t.vars maxJoins t.invariant
  return task.result (← task.run t.initialFrame)

end TypeDecl

/-- Analyse the bytecode of a declaration. -/
def Decl.analyze (d : Decl) (maxJoins : Int) : Except AnalysisError AnalysisResult :=
  match d with
  | function f => f.analyze maxJoins
  | type t => t.analyze maxJoins

def AnalysisError.message : AnalysisError → Option String
  | unsupported unit p => some (unit ++ ": #" ++ p.address.path ++ ": no transfer function for " ++ p.code.text)
  | fault f => f.message

namespace AnalysisResult

/-- The points with the frames that reach them. -/
def entries (r : AnalysisResult) : List (Point × Option Frame) := r.flow.points.zip r.frames

/-- The number of points that a frame reaches. -/
def reached (r : AnalysisResult) : Nat := r.frames.countP Option.isSome

/-- The union of the intervals of a slot over all points, if it holds one at any. -/
def range? (r : AnalysisResult) (n : Nat) : Option Interval :=
  let intervals := r.frames.filterMap fun frame => (frame.bind (·.slots[n]?)).join
  match intervals with
  | [] => none
  | i :: is => some (is.foldl Interval.union i)

/-- A frame, or what is said where there is none. -/
def frameText : Option Frame → String
  | some f => f.text
  | none => "unreachable"

/-- One line for each point: its path, its code and its frame. -/
def text (r : AnalysisResult) : String :=
  String.join (r.entries.map fun (p, frame) =>
    "#" ++ p.address.path ++ "\t" ++ p.code.text ++ "\t" ++ frameText frame ++ "\n")

/-- The successors of a point as a frame table shows them. -/
def successorText (g : Flow) (p : Point) : String :=
  match g.successors p.address with
  | .ok (a :: as) => "-> " ++ ", ".intercalate ((a :: as).map fun b => "#" ++ b.path)
  | _ => "-> exit"

/-- The name of the unit and a table of its points: path, code, successors and frame.  Tabs and line ends in the name
or in a code count as those of the table. -/
def table (r : AnalysisResult) : String :=
  Text.alignColumns ("== " ++ r.unit ++ "\n" ++ String.join (r.entries.map fun (p, frame) =>
    "#" ++ p.address.path ++ "\t" ++ p.code.text ++ "\t" ++ successorText r.flow p ++ "\t" ++ frameText frame ++ "\n"))

end AnalysisResult

end Narrowing
