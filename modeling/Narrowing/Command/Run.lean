import Narrowing.Command.Files
import Narrowing.Command.Flags
import Narrowing.Container.Reader
import Narrowing.Settings.File
import Narrowing.Version

/-!
# The command

The command reads settings and a container and prints C.  What it does depends on the world only through the files it
reads and the room there is for texts, so it is written for any monad in which files can be read; the rest is a value:
what goes to the two output streams, and the exit code.
-/

namespace Narrowing.Command

/-- What a run of the command leaves. -/
structure Outcome where
  exit : Nat := 0
  stdout : String := ""
  stderr : String := ""
  deriving DecidableEq, Repr

/-- A run that ends with a message. -/
def Outcome.failed (message : String) : Outcome := { exit := 1, stdout := message ++ "\n" }

/-! ### Settings -/

/-- Why no settings were found. -/
inductive LookupError where
  | file (path : String) (failure : FileFailure)
  | unreadable (path : String)
  | unknownKey (path : String) (key : Toml.Key)
  | settings (e : SettingsError)
  deriving DecidableEq, Repr

/-- The message of an error; a fault may have none. -/
def LookupError.message : LookupError → Option String
  | file path .directory => some (path ++ ": " ++ FileFailure.directory.message path)
  | file path failure => some (failure.message path)
  | unreadable path => some (path ++ ": toml: invalid document")
  | unknownKey path key => some (path ++ ": unknown key " ++ Toml.Key.text key)
  | settings e => e.message

/-- The name of the files that are looked for. -/
def settingsName : String := "wyec.conf"

/-- What a text at a path says. -/
def settingsAt (decode : SettingsDecoder) (path text : String) : Except LookupError SettingsFile :=
  match SettingsFile.read decode text with
  | .ok f => .ok f
  | .error .unreadable => .error (.unreadable path)
  | .error (.unknownKey key) => .error (.unknownKey path key)

/-- What the files in some directories say, in the order of the directories; those without a file are passed over. -/
def collectSettings {m : Type → Type} [Monad m] (decode : SettingsDecoder) (read : FileReader m) :
    List (List String) → m (Except LookupError (List SettingsFile))
  | [] => return .ok []
  | dir :: dirs => do
    let path := Text.pathText (dir ++ [settingsName])
    match ← read path with
    | .error .missing => collectSettings decode read dirs
    | .error failure => return .error (.file path failure)
    | .ok text =>
      match settingsAt decode path text with
      | .error e => return .error e
      | .ok f => return (← collectSettings decode read dirs).map (f :: ·)

/-- The settings for files in a directory: the default ones, changed by the files from the root down to it. -/
def settingsFor {m : Type → Type} [Monad m] (decode : SettingsDecoder) (read : FileReader m) (dir : List String) :
    m (Except LookupError Settings) := do
  match ← collectSettings decode read (Text.ancestors dir) with
  | .error e => return .error e
  | .ok nearestFirst => return (Settings.ofChain nearestFirst.reverse).mapError .settings

/-- The settings of one file, over the default ones. -/
def settingsFrom {m : Type → Type} [Monad m] (decode : SettingsDecoder) (read : FileReader m) (path : String) :
    m (Except LookupError Settings) := do
  match ← read path with
  | .error failure => return .error (.file path failure)
  | .ok text =>
    match settingsAt decode path text with
    | .error e => return .error e
    | .ok f => return (Settings.ofChain [f]).mapError .settings

/-! ### Running -/

/-- The fault behind an error, if there is one. -/
def faultOf? : Container.Error → Option Fault
  | .type _ (.fault f) | .function _ (.fault f) => some f
  | .schema (.fault f) | .function _ (.body (.schema (.fault f))) => some f
  | _ => none

/-- The message for a container that cannot be read. -/
def containerMessage (path : String) (e : Container.Error) : String :=
  let schema (s : Container.SchemaError) : String :=
    match s with
    | .unreadable => path ++ ": yaml: invalid document"
    | .misfits lines => path ++ ": yaml: lines that do not fit: " ++ ", ".intercalate (lines.map toString)
    | .fault f => f.message.getD ""
  match e with
  | .schema s => schema s
  | .function _ (.body (.schema s)) => schema s
  | e => (e.message path).getD ""

/-- What is left of a compilation: its output, or its error in place of the output. -/
def outcomeOf (c : Compilation) : Except Fault Outcome :=
  match c.error with
  | none => .ok { stdout := c.output, stderr := c.frames }
  | some (.analysis (.fault f)) | some (.emission (.fault f)) => .error f
  | some e => .ok { exit := 1, stdout := c.output ++ e.message.getD "" ++ "\n", stderr := c.frames }

/-- Compile the container in the file at a path.  The flags can only add to what is printed. -/
def compileText (flags : Flags) (o : CompileOptions) (path : String) (file : Except FileFailure String) :
    Except Fault Outcome :=
  match file with
  | .error .directory => .ok (.failed (path ++ ": yaml: input error: " ++ FileFailure.directory.message path))
  | .error failure => .ok (.failed (failure.message path))
  | .ok text =>
    match Container.read path text with
    | .error e =>
      match faultOf? e with
      | some f => .error f
      | none => .ok (.failed (containerMessage path e))
    | .ok file =>
      let layout := { o.layout with verbose := o.layout.verbose || flags.verbose }
      outcomeOf (file.compile { o with layout } (if flags.debugFrames then some .whole else none) {})

/-- Compile the container at a path, with settings from the file that the flags name or from those around it. -/
def compileFile {m : Type → Type} [Monad m] (room : Nat → Bool) (read : FileReader m) (dir : List String)
    (flags : Flags) (path : String) : m (Except Fault Outcome) := do
  let settings ←
    if flags.config != "" then settingsFrom .toml read flags.config
    else settingsFor .toml read (Text.absolute dir path).dropLast
  match settings with
  | .error (.settings (.fault f)) => return .error f
  | .error e => return .ok (.failed (e.message.getD ""))
  | .ok s =>
    match s.options room with
    | .error (.fault f) => return .error f
    | .error e => return .ok (.failed (e.message.getD ""))
    | .ok o => return compileText flags o path (← read path)

/-- Run the command with some arguments in a directory. -/
def run {m : Type → Type} [Monad m] (room : Nat → Bool) (read : FileReader m) (dir : List String) (program : String)
    (v : Version) (args : List String) : m (Except Fault Outcome) := do
  match Flags.read {} args with
  | .error e =>
    let complaint := (e.message?.map (· ++ "\n")).getD ""
    return .ok { exit := if e = .help then 0 else 2, stderr := complaint ++ usage program }
  | .ok (flags, rest) =>
    if flags.version || flags.debugVersion then return .ok { stdout := v.text program }
    else
      match rest with
      | [path] => compileFile room read dir flags path
      | _ => return .ok { exit := 2, stderr := usage program }

end Narrowing.Command
