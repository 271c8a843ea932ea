import Narrowing.Emit.Function

/-!
# C files

The output is an include line and the functions in order, each followed by a blank line.  It goes out in chunks, any
of which may fail to be written; what was written before stays.
-/

namespace Narrowing

/-- A piece of output that is written at once; the include line belongs to no function. -/
structure Chunk where
  owner : Option String
  text : String
  deriving DecidableEq, Repr

/-- A place that output goes to: how many writes succeed, if not all, and why the others fail. -/
structure Sink where
  budget : Option Nat := none
  reason : String := ""
  deriving DecidableEq, Repr

/-- A write that failed. -/
structure WriteError where
  owner : Option String
  reason : String
  deriving DecidableEq, Repr

def WriteError.message (e : WriteError) : String := "writing " ++ e.owner.getD "preamble" ++ ": " ++ e.reason

/-- The chunks of a file of functions, given by name and text. -/
def fileChunks (layout : Layout) (functions : List (String × String)) : List Chunk :=
  ⟨none, "#include <" ++ layout.filled.header ++ ">\n\n"⟩ ::
    functions.map fun (name, text) => ⟨some name, text ++ "\n"⟩

/-- Write chunks in turn: what is written, and the write that failed. -/
def Sink.write (s : Sink) (chunks : List Chunk) : String × Option WriteError :=
  let accepted := (s.budget.map chunks.take).getD chunks
  (String.join (accepted.map Chunk.text),
    (chunks.drop accepted.length).head?.map fun c => ⟨c.owner, s.reason⟩)

end Narrowing
