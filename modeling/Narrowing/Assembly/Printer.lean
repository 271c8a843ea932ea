import Narrowing.Code

/-!
# Printing assembly

A block is printed one code a line, loop bodies between braces and one tab further in.
-/

namespace Narrowing.Assembly

/-- The tabs before a line at the given depth. -/
def tabs (depth : Nat) : String := String.ofList (List.replicate depth '\t')

mutual

/-- The lines of one code.  A hole has none. -/
def formatCode (depth : Nat) : Code → Except Fault String
  | .loop body => do
    let inner ← formatBlock (depth + 1) body
    return tabs depth ++ "loop \x7b\n" ++ inner ++ tabs depth ++ "\x7d\n"
  | .bareLoop => .ok (tabs depth ++ "loop \x7b\n" ++ tabs depth ++ "\x7d\n")
  | .hole => .error .unprintable
  | code => .ok (tabs depth ++ code.text ++ "\n")

/-- The lines of a sequence of codes. -/
def formatBlock (depth : Nat) : List Code → Except Fault String
  | [] => .ok ""
  | code :: rest => do
    let first ← formatCode depth code
    let more ← formatBlock depth rest
    return first ++ more

end

/-- A block as assembly. -/
def format (b : Block) : Except Fault String := formatBlock 0 b

end Narrowing.Assembly
