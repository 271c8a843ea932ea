import Narrowing.Text.Quoted

/-!
# Flags

Flags come before the other arguments.  One or two hyphens start a flag, and an equals sign may give its value.  Two
hyphens alone end the flags.
-/

namespace Narrowing.Command

/-- What the flags say. -/
structure Flags where
  verbose : Bool := false
  /-- The file of settings to use; none if empty. -/
  config : String := ""
  version : Bool := false
  debugVersion : Bool := false
  debugFrames : Bool := false
  deriving DecidableEq, Repr

/-- What is wrong with the flags. -/
inductive FlagError where
  /-- A flag asks for help. -/
  | help
  | form (arg : String)
  | undefined (name : String)
  | noValue (name : String)
  | truthValue (name value : String)
  deriving DecidableEq, Repr

/-- What is said about it, if anything. -/
def FlagError.message? : FlagError → Option String
  | help => none
  | form arg => some ("bad flag syntax: " ++ arg)
  | undefined name => some ("flag provided but not defined: -" ++ name)
  | noValue name => some ("flag needs an argument: -" ++ name)
  | truthValue name value => some ("invalid boolean value " ++ Text.quote value ++ " for -" ++ name ++ ": parse error")

/-- The sorts of arguments. -/
inductive Arg where
  /-- The end of the flags; whether the argument itself is used up. -/
  | stop (used : Bool)
  | flag (name : String) (value : Option String)
  | wrong
  deriving DecidableEq, Repr

/-- The name and the value of a flag, from behind its hyphens. -/
def splitFlag (cs : List Char) : String × Option String :=
  let name := cs.takeWhile (· != '=')
  let value := (cs.dropWhile (· != '=')).tail
  (String.ofList name, if name.length < cs.length then some (String.ofList value) else none)

/-- What sort of argument a text is. -/
def Arg.ofText (s : String) : Arg :=
  let flag (cs : List Char) : Arg :=
    match cs with
    | [] => .wrong
    | c :: _ => if c == '-' || c == '=' then .wrong else .flag (splitFlag cs).1 (splitFlag cs).2
  match s.toList with
  | ['-', '-'] => .stop true
  | '-' :: '-' :: cs => flag cs
  | '-' :: c :: cs => flag (c :: cs)
  | _ => .stop false

/-- The truth value a text stands for. -/
def readTruth (s : String) : Option Bool :=
  if ["1", "t", "T", "TRUE", "true", "True"].contains s then some true
  else if ["0", "f", "F", "FALSE", "false", "False"].contains s then some false
  else none

namespace Flags

/-- The flags that are on or off. -/
def setTruth? (name : String) : Option (Flags → Bool → Flags) :=
  match name with
  | "v" => some fun f b => { f with verbose := b }
  | "version" => some fun f b => { f with version := b }
  | "debug.version" => some fun f b => { f with debugVersion := b }
  | "debug.frames" => some fun f b => { f with debugFrames := b }
  | _ => none

/-- Read the flags at the start of the arguments; also gives the arguments behind them. -/
def read (f : Flags) : List String → Except FlagError (Flags × List String)
  | [] => .ok (f, [])
  | arg :: args =>
    match Arg.ofText arg with
    | .stop used => .ok (f, if used then args else arg :: args)
    | .wrong => .error (.form arg)
    | .flag name value =>
      match setTruth? name with
      | some put =>
        match value with
        | none => read (put f true) args
        | some v =>
          match readTruth v with
          | some b => read (put f b) args
          | none => .error (.truthValue name v)
      | none =>
        if name == "config" then
          match value with
          | some v => read { f with config := v } args
          | none =>
            match args with
            | v :: rest => read { f with config := v } rest
            | [] => .error (.noValue name)
        else if name == "help" || name == "h" then .error .help
        else .error (.undefined name)

end Flags

/-- How to call the program. -/
def usage (program : String) : String :=
  "Usage: " ++ program ++ " [flags] file\n\nFlags:\n" ++
    "  -config file\n    \tRead configuration from file instead of looking for wyec.conf\n" ++
    "  -v\tAnnotate every unit with its program points and inferred variable types\n" ++
    "  -version\n    \tPrint version and exit\n"

end Narrowing.Command
