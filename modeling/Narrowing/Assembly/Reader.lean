import Narrowing.Code
import Narrowing.Text.Blank
import Narrowing.Text.Name
import Narrowing.Text.Numeral
import Narrowing.Text.Quoted

/-!
# Reading assembly

Assembly has one code a line.  Blank lines and lines that start with two slashes mean nothing, commas separate like
blanks, and a loop stands between a line `loop` with an opening brace and a line with the closing one.  Each line is
read on its own (`readLine`); a builder then puts the lines together, innermost block first.
-/

namespace Narrowing.Assembly

/-- What is wrong with a line. -/
inductive Complaint where
  | loopForm
  | unexpectedClose
  | constForm
  | assignForm
  | gotoForm
  | noOperands (mnemonic : String)
  | debugForm
  | branchForm
  | comparator (word : String)
  | switchForm
  | armForm (word : String)
  | noDefault
  | operandName (word : String)
  | missingTarget (mnemonic : String)
  | operandsForm (mnemonic : String)
  | unknownInstruction (mnemonic : String)
  | notSlot (word : String)
  | invalidSlot (word : String)
  | invalidLabel (word : String)
  | invalidConstant (word : String)
  | unterminatedLoop
  deriving DecidableEq, Repr

def Complaint.message : Complaint → String
  | loopForm => "expected loop \x7b"
  | unexpectedClose => "unexpected \x7d"
  | constForm => "expected const %t = value"
  | assignForm => "expected assign %t = %s"
  | gotoForm => "expected goto label"
  | noOperands m => m ++ " takes no operands"
  | debugForm => "expected debug %a"
  | branchForm => "expected if %a op %b goto label"
  | comparator w => "unknown comparator " ++ Text.quote w
  | switchForm => "expected switch %a [value:label ...] default:label"
  | armForm w => "expected value:label, got " ++ Text.quote w
  | noDefault => "switch without default"
  | operandName w => "invalid operand name " ++ Text.quote w
  | missingTarget m => m ++ ": missing target"
  | operandsForm m => m ++ ": expected = followed by operands"
  | unknownInstruction m => "unknown instruction " ++ Text.quote m
  | notSlot w => "expected slot, got " ++ Text.quote w
  | invalidSlot w => "invalid slot " ++ Text.quote w
  | invalidLabel w => "invalid label " ++ Text.quote w
  | invalidConstant w => "invalid constant " ++ Text.quote w
  | unterminatedLoop => "unterminated loop"

/-- Why a text is no block: a fault, or a complaint about a line, counted from 1. -/
inductive Error where
  | fault (f : Fault)
  | complaint (line : Nat) (c : Complaint)
  deriving DecidableEq, Repr

/-! ### Words -/

/-- The slot a word names: `_` for none, or `%` and a number that fits in 64 bits. -/
def readSlot (w : String) : Except Complaint Slot :=
  match w.toList with
  | ['_'] => .ok noSlot
  | '%' :: digits =>
    match Text.readInt64 digits with
    | some n => if n < 0 || digits.head? == some '+' then .error (.invalidSlot w) else .ok n
    | none => .error (.invalidSlot w)
  | _ => .error (.notSlot w)

def readLabel (w : String) : Except Complaint String :=
  if Text.isName w then .ok w else .error (.invalidLabel w)

def readConstant (w : String) : Except Complaint Constant :=
  match w with
  | "true" => .ok (.bool true)
  | "false" => .ok (.bool false)
  | "null" => .ok .null
  | _ =>
    match Text.readInt w.toList with
    | some n => .ok (.int n)
    | none => .error (.invalidConstant w)

/-- The parts of a word before and after its last colon. -/
def divideArm (w : String) : Option (String × String) :=
  let back := w.toList.reverse
  match back.dropWhile (· != ':') with
  | [] => none
  | _ :: value => some (String.ofList value.reverse, String.ofList (back.takeWhile (· != ':')).reverse)

/-- The parts of a word before and after its first point. -/
def divideMnemonic (w : String) : String × Option String :=
  match w.toList.dropWhile (· != '.') with
  | [] => (w, none)
  | _ :: aux => (String.ofList (w.toList.takeWhile (· != '.')), some (String.ofList aux))

/-! ### Lines -/

/-- The arms of a switch; the last is its default. -/
def readArms : List String → Except Complaint (List Arm × String)
  | [] => .error .noDefault
  | w :: rest =>
    match divideArm w with
    | none => .error (.armForm w)
    | some (value, target) => do
      let l ← readLabel target
      if rest.isEmpty then
        if value == "default" then return ([], l) else throw .noDefault
      else
        let v ← readConstant value
        let (arms, d) ← readArms rest
        return (⟨v, l⟩ :: arms, d)

/-- The name behind the point of a first word; there is none without a point. -/
def readOperandName : Option String → Except Complaint String
  | none => .ok ""
  | some aux => if Text.isDottedName aux then .ok aux else .error (.operandName aux)

/-- The operands behind a target. -/
def readOperands (mnemonic : String) : List String → Except Complaint (List Slot)
  | [] => .ok []
  | "=" :: a :: as => (a :: as).mapM readSlot
  | _ => .error (.operandsForm mnemonic)

/-- A code that computes a value. -/
def readOperation (word : String) (args : List String) : Except Complaint Code := do
  let (mnemonic, aux?) := divideMnemonic word
  let aux ← readOperandName aux?
  match args with
  | [] => throw (.missingTarget mnemonic)
  | t :: more =>
    let target ← readSlot t
    let operands ← readOperands mnemonic more
    match Mnemonic.ofText? mnemonic with
    | some m => return .compute m target operands aux
    | none => throw (.unknownInstruction mnemonic)

/-- What a line contributes to a block. -/
inductive Line where
  | nothing
  | opens
  | closes
  | code (c : Code)
  deriving BEq, Repr

/-- A line whose first word is `mnemonic`. -/
def readWords (mnemonic : String) (args : List String) : Except Complaint Line :=
  match mnemonic with
  | "loop" => if args = ["\x7b"] then .ok .opens else .error .loopForm
  | "\x7d" => if args.isEmpty then .ok .closes else .error .unexpectedClose
  | "const" =>
    match args with
    | [t, "=", v] => do return .code (.const (← readSlot t) (← readConstant v))
    | _ => .error .constForm
  | "assign" =>
    match args with
    | [t, "=", s] => do return .code (.assign (← readSlot t) (← readSlot s))
    | _ => .error .assignForm
  | "goto" =>
    match args with
    | [l] => do return .code (.goto (← readLabel l))
    | _ => .error .gotoForm
  | "if" =>
    match args with
    | [a, op, b, "goto", l] => do
      let left ← readSlot a
      match Comparator.ofText? op with
      | none => throw (.comparator op)
      | some c =>
        let right ← readSlot b
        return .code (.branch left c right (← readLabel l))
    | _ => .error .branchForm
  | "switch" =>
    match args with
    | a :: first :: more => do
      let operand ← readSlot a
      let (arms, d) ← readArms (first :: more)
      return .code (.switch operand arms d)
    | _ => .error .switchForm
  | "nop" => if args.isEmpty then .ok (.code .nop) else .error (.noOperands mnemonic)
  | "fail" => if args.isEmpty then .ok (.code .fail) else .error (.noOperands mnemonic)
  | "debug" =>
    match args with
    | [a] => do return .code (.debug (← readSlot a))
    | _ => .error .debugForm
  | "return" => do return .code (.ret (← args.mapM readSlot))
  | word =>
    if args.isEmpty && word.toList.getLast? == some ':' then do
      return .code (.label (← readLabel (String.ofList word.toList.dropLast)))
    else do return .code (← readOperation word args)

/-- The words of a line; commas separate like blanks. -/
def lineWords (s : List Char) : List String :=
  (Text.words (s.map fun c => if c == ',' then ' ' else c)).map String.ofList

/-- What is wrong with a line on its own. -/
inductive LineError where
  | fault (f : Fault)
  | complaint (c : Complaint)
  deriving DecidableEq, Repr

/-- Read one line.  A line of separators alone is a fault. -/
def readLine (line : List Char) : Except LineError Line :=
  let s := Text.trim line
  if s.isEmpty || ['/', '/'].isPrefixOf s then .ok .nothing
  else
    match lineWords s with
    | [] => .error (.fault .wordless)
    | mnemonic :: args => (readWords mnemonic args).mapError .complaint

/-! ### Blocks -/

/-- The innermost open block and the blocks around it, from the inside out. -/
structure Builder where
  inner : Block
  outer : List Block
  deriving BEq, Repr

namespace Builder

def start : Builder := ⟨[], []⟩

/-- Add a line to the block under construction. -/
def add (b : Builder) : Line → Except Complaint Builder
  | .nothing => .ok b
  | .opens => .ok ⟨[], b.inner :: b.outer⟩
  | .closes =>
    match b.outer with
    | [] => .error .unexpectedClose
    | block :: outer => .ok ⟨block ++ [.loop b.inner], outer⟩
  | .code c => .ok ⟨b.inner ++ [c], b.outer⟩

end Builder

/-- Read a line and add it to the block under construction. -/
def addLine (b : Builder) (line : List Char) : Except LineError Builder := do
  (b.add (← readLine line)).mapError .complaint

/-- Add lines in turn; `count` lines stand before them. -/
def addLines (b : Builder) (count : Nat) : List (List Char) → Except Error Builder
  | [] => .ok b
  | line :: rest =>
    match addLine b line with
    | .ok b' => addLines b' (count + 1) rest
    | .error (.fault f) => .error (.fault f)
    | .error (.complaint c) => .error (.complaint (count + 1) c)

/-- Read a block from lines. -/
def readLines (ls : List (List Char)) : Except Error Block := do
  let b ← addLines .start 0 ls
  if b.outer.isEmpty then return b.inner else throw (.complaint ls.length .unterminatedLoop)

/-- Read a block of assembly. -/
def read (src : String) : Except Error Block := readLines (Text.lines src.toList)

end Narrowing.Assembly
