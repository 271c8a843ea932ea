import Narrowing.Proofs.Output

/-!
# A writer with a depth

Statements can also be printed by a writer that keeps the text so far and a depth that goes up and down: a block goes
one level deeper before its statements and comes back behind them, a switch does so around its clauses and once more
around each break.  Line by line this gives the same text (`Stmt.prints_write`), and the depth is restored.
-/

namespace Narrowing

/-- A line one level deeper. -/
def CLine.deepen (l : CLine) : CLine := ⟨l.depth + 1, l.text⟩

/-- The text of some lines. -/
def linesText (indent : String) (ls : List CLine) : String := String.join (ls.map (CLine.render indent))

/-- The depth of the next line and the text so far. -/
structure Writer where
  depth : Nat
  text : String
  deriving DecidableEq, Repr

/-- Printing into a writer. -/
abbrev WriteM := StateT Writer EmitM

/-- The writer behind some lines. -/
def Writer.print (indent : String) (w : Writer) (ls : List CLine) : Writer := ⟨w.depth, w.text ++ linesText indent ls⟩

/-! ### Writing statements -/

/-- Write a line at the present depth. -/
def writeLine (indent text : String) : WriteM Unit := modify fun w => w.print indent [⟨w.depth, text⟩]

/-- Write one level deeper. -/
def nested (m : WriteM Unit) : WriteM Unit := do
  modify fun w => ⟨w.depth + 1, w.text⟩
  m
  modify fun w => ⟨w.depth - 1, w.text⟩

/-- Write an assignment. -/
def writeAssign (e : Emitter) (indent : String) (lhs rhs : List Expr) : WriteM Unit :=
  match lhs, rhs with
  | [], [y] => do writeLine indent ((← y.emit e) ++ ";")
  | [x], [y] => do
    let s ← x.emit e
    let t ← y.emit e
    writeLine indent (s ++ " = " ++ t ++ ";")
  | _, _ => unsupported (.assignment rhs.length lhs.length)

mutual

/-- Write a statement. -/
def Stmt.write (e : Emitter) (indent : String) : Stmt → WriteM Unit
  | .block body => do
    writeLine indent "\x7b"
    nested (writeBlock e indent body)
    writeLine indent "\x7d"
  | .decl n init => do
    let type ← e.variableType n
    let name ← e.variableName n
    match init with
    | .hole => writeLine indent (type ++ " " ++ name ++ ";")
    | x => writeLine indent (type ++ " " ++ name ++ " = " ++ (← x.emit e) ++ ";")
  | .declAlias n => do
    let type ← e.variableType n
    let name ← e.variableName n
    writeLine indent ("// alias " ++ type ++ " " ++ name)
  | .assign lhs rhs => writeAssign e indent lhs rhs
  | .assert x => do writeLine indent ("assert(" ++ (← x.emit e) ++ ");")
  | .assume x => do writeLine indent ("assume(" ++ (← x.emit e) ++ ");")
  | .break => writeLine indent "break;"
  | .continue => writeLine indent "continue;"
  | .debug _ => pure ()
  | .doWhile body x => do
    writeLine indent "do \x7b"
    nested (writeBlock e indent body)
    writeLine indent ("\x7d while(" ++ (← x.emit e) ++ ");")
  | .fail => writeLine indent "fail();"
  | .ifThen x yes => do
    writeLine indent ("if(" ++ (← x.emit e) ++ ") \x7b")
    nested (writeBlock e indent yes)
    writeLine indent "\x7d"
  | .ifElse x yes no => do
    writeLine indent ("if(" ++ (← x.emit e) ++ ") \x7b")
    nested (writeBlock e indent yes)
    writeLine indent "\x7d else \x7b"
    nested (writeBlock e indent no)
    writeLine indent "\x7d"
  | .call x =>
    if x.isCall then do writeLine indent ((← x.emit e) ++ ";") else throw (.notCall x.callKindName)
  | .named name body => do
    writeLine indent (name ++ ": \x7b")
    nested (writeBlock e indent body)
    writeLine indent "\x7d"
  | .while x body => do
    writeLine indent ("while(" ++ (← x.emit e) ++ ") \x7b")
    nested (writeBlock e indent body)
    writeLine indent "\x7d"
  | .ret [] => writeLine indent "return;"
  | .ret [x] => do writeLine indent ("return " ++ (← x.emit e) ++ ";")
  | .ret (_ :: _ :: _) => unsupported .returnOfMany
  | .skip => writeLine indent "// skip"
  | .switch x clauses => do
    writeLine indent ("switch(" ++ (← x.emit e) ++ ") \x7b")
    nested (writeClauses e indent clauses)
    writeLine indent "\x7d"
  | .hole => throw .noStatement

/-- Write the statements of a block, up to a spoilt one. -/
def writeBlock (e : Emitter) (indent : String) : List Stmt → WriteM Unit
  | [] => pure ()
  | s :: ss => do
    s.write e indent
    if ← isSpoilt then return
    else writeBlock e indent ss

/-- Write the clauses of a switch. -/
def writeClauses (e : Emitter) (indent : String) : List (List Constant × List Stmt) → WriteM Unit
  | [] => pure ()
  | (values, body) :: cs => do
    writeLine indent (clauseHead values)
    nested (writeBlock e indent body)
    nested (writeLine indent "break;")
    writeClauses e indent cs

end

/-! ### The writer prints the lines -/

theorem linesText_append (indent : String) (ls ms : List CLine) :
    linesText indent (ls ++ ms) = linesText indent ls ++ linesText indent ms := by
  simp [linesText, String.join_append]

@[simp] theorem Writer.depth_print (indent : String) (w : Writer) (ls : List CLine) :
    (w.print indent ls).depth = w.depth := rfl

/-- Lines that are printed one after the other are printed together. -/
theorem Writer.print_print (indent : String) (w : Writer) (ls ms : List CLine) :
    (w.print indent ls).print indent ms = w.print indent (ls ++ ms) := by
  simp [Writer.print, linesText_append, String.append_assoc]

/-- Writing prints the lines that are given for the depth of the writer, and keeps the depth.  One level deeper they are
the same lines one level deeper. -/
structure Prints (indent : String) (m : WriteM Unit) (lines : Nat → EmitM (List CLine)) : Prop where
  run : ∀ w, m.run w = (fun ls => ((), w.print indent ls)) <$> lines w.depth
  deepen : ∀ d, lines (d + 1) = List.map CLine.deepen <$> lines d

namespace Prints

variable {indent : String} {m m' : WriteM Unit} {lines lines' : Nat → EmitM (List CLine)} {α : Type}

theorem congr (h : Prints indent m lines) (hlines : ∀ d, lines d = lines' d) : Prints indent m lines' :=
  (funext hlines : lines = lines') ▸ h

theorem line (text : String) : Prints indent (writeLine indent text) fun d => pure [⟨d, text⟩] where
  run _ := rfl
  deepen _ := rfl

theorem silent : Prints indent (pure ()) fun _ => pure [] where
  run w := by
    have hprint : w.print indent [] = w := by simp [Writer.print, linesText]
    simp [hprint]
  deepen _ := rfl

/-- One text behind another. -/
theorem seq (h : Prints indent m lines) (h' : Prints indent m' lines') :
    Prints indent (do m; m') fun d => do return (← lines d) ++ (← lines' d) where
  run w := by simp [h.run, h'.run, Writer.print_print]
  deepen d := by simp [h.deepen, h'.deepen]

/-- Text that depends on a step of printing, which writes nothing itself. -/
theorem bind (x : EmitM α) {m : α → WriteM Unit} {lines : α → Nat → EmitM (List CLine)}
    (h : ∀ a, Prints indent (m a) (lines a)) : Prints indent (do m (← x)) fun d => do lines (← x) d where
  run w := by simp [fun a => (h a).run]
  deepen d := by simp [fun a => (h a).deepen]

theorem throw (f : Fault) : Prints indent (MonadExcept.throw f) fun _ => MonadExcept.throw f where
  run _ := rfl
  deepen _ := rfl

theorem refuse (c : Construct) : Prints indent (unsupported c) fun _ => do unsupported c; return [] := by
  have h : Prints indent (do unsupported c; return) _ := bind (unsupported c) fun _ => silent
  rwa [bind_pure_unit] at h

/-- Text one level deeper; the depth is the old one behind it. -/
theorem nested (h : Prints indent m lines) : Prints indent (nested m) fun d => lines (d + 1) where
  run w := by
    simp only [Narrowing.nested, StateT.run_bind, StateT.run_modify, pure_bind, h.run, bind_map_left]
    rfl
  deepen d := h.deepen (d + 1)

/-- Text that is left out behind a spoilt statement. -/
theorem unlessSpoilt (h : Prints indent m lines) (h' : Prints indent m' lines') :
    Prints indent (do m; if ← isSpoilt then return else m') fun d => do
      let ls ← lines d
      if ← isSpoilt then return ls else return ls ++ (← lines' d) where
  run w := by
    simp only [StateT.run_bind, h.run, bind_map_left, map_bind]
    refine bind_congr fun ls => ?_
    simp only [StateT.run_monadLift, monadLift_self, bind_pure_comp, bind_map_left]
    -- a spoilt statement is the last one on both sides
    refine bind_congr fun spoilt => ?_
    cases spoilt <;> simp [h'.run, Writer.print_print]
  deepen d := by
    simp only [h.deepen, h'.deepen, bind_map_left, map_bind]
    refine bind_congr fun ls => bind_congr fun spoilt => ?_
    cases spoilt <;> simp

/-- A text between two lines, one level deeper. -/
theorem framed (top bottom : String) (h : Prints indent m lines) :
    Prints indent (do writeLine indent top; Narrowing.nested m; writeLine indent bottom) fun d => do
      return ⟨d, top⟩ :: (← lines (d + 1)) ++ [⟨d, bottom⟩] :=
  ((line top).seq (h.nested.seq (line bottom))).congr fun d => by simp

end Prints

namespace Stmt

variable {e : Emitter} {indent : String}

/-- An assignment is written as the line it is emitted as, or refused. -/
theorem prints_writeAssign : (lhs rhs : List Expr) →
    Prints indent (writeAssign e indent lhs rhs) fun d => emitAssign e d lhs rhs
  | [], [_] => .bind _ fun _ => .line _
  | [_], [_] => .bind _ fun _ => .bind _ fun _ => .line _
  | [], [] => .refuse _
  | [], _ :: _ :: _ => .refuse _
  | [_], [] => .refuse _
  | [_], _ :: _ :: _ => .refuse _
  | _ :: _ :: _, _ => .refuse _

mutual

/-- Writing a statement prints the lines that it is emitted as, at the depth of the writer. -/
theorem prints_write : (s : Stmt) → Prints indent (s.write e indent) fun d => s.emit e d
  | .block body => by
    simp only [write, emit]
    exact (prints_writeBlock body).framed _ _
  | .decl n init => by
    simp only [write, emit]
    refine .bind _ fun type => .bind _ fun name => ?_
    cases init with
    | hole => exact .line _
    | _ => exact .bind _ fun _ => .line _
  | .declAlias n => by
    simp only [write, emit]
    exact .bind _ fun _ => .bind _ fun _ => .line _
  | .assign lhs rhs => by
    simp only [write, emit]
    exact prints_writeAssign lhs rhs
  | .assert x => by
    simp only [write, emit]
    exact .bind _ fun _ => .line _
  | .assume x => by
    simp only [write, emit]
    exact .bind _ fun _ => .line _
  | .break => by
    simp only [write, emit]
    exact .line _
  | .continue => by
    simp only [write, emit]
    exact .line _
  | .debug x => by
    simp only [write, emit]
    exact .silent
  | .doWhile body x => by
    simp only [write, emit]
    have hbottom : Prints indent _ _ := .bind (x.emit e) fun t => .line ("\x7d while(" ++ t ++ ");")
    exact ((Prints.line _).seq ((prints_writeBlock body).nested.seq hbottom)).congr fun d => by simp
  | .fail => by
    simp only [write, emit]
    exact .line _
  | .ifThen x yes => by
    simp only [write, emit]
    exact .bind _ fun t => (prints_writeBlock yes).framed _ _
  | .ifElse x yes no => by
    simp only [write, emit]
    refine .bind _ fun t => ?_
    have hno := (prints_writeBlock no).framed "\x7d else \x7b" "\x7d"
    exact ((Prints.line _).seq ((prints_writeBlock yes).nested.seq hno)).congr fun d => by simp
  | .call x => by
    simp only [write, emit]
    split
    · exact .bind _ fun _ => .line _
    · exact .throw _
  | .named name body => by
    simp only [write, emit]
    exact (prints_writeBlock body).framed _ _
  | .while x body => by
    simp only [write, emit]
    exact .bind _ fun t => (prints_writeBlock body).framed _ _
  | .ret [] => by
    simp only [write, emit]
    exact .line _
  | .ret [x] => by
    simp only [write, emit]
    exact .bind _ fun _ => .line _
  | .ret (_ :: _ :: _) => by
    simp only [write, emit]
    exact .refuse _
  | .skip => by
    simp only [write, emit]
    exact .line _
  | .switch x clauses => by
    simp only [write, emit]
    exact .bind _ fun t => (prints_writeClauses clauses).framed _ _
  | .hole => by
    simp only [write, emit]
    exact .throw _

theorem prints_writeBlock : (ss : List Stmt) → Prints indent (writeBlock e indent ss) fun d => emitBlock e d ss
  | [] => by
    simp only [writeBlock, emitBlock]
    exact .silent
  | s :: ss => by
    simp only [writeBlock, emitBlock]
    exact (prints_write s).unlessSpoilt (prints_writeBlock ss)

theorem prints_writeClauses : (cs : List (List Constant × List Stmt)) →
    Prints indent (writeClauses e indent cs) fun d => emitClauses e d cs
  | [] => by
    simp only [writeClauses, emitClauses]
    exact .silent
  | (values, body) :: cs => by
    simp only [writeClauses, emitClauses]
    have hrest := (Prints.line "break;").nested.seq (prints_writeClauses cs)
    exact ((Prints.line _).seq ((prints_writeBlock body).nested.seq hrest)).congr fun d => by simp

end

end Stmt

end Narrowing
