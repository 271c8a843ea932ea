import Narrowing.Compile
import Narrowing.Text.Quoted

/-!
# Settings

Settings come from files in the directory of the input and the directories above it.  A file defines some of them; the
nearest file that defines one decides.  The list of integer kinds is special: the word `inherit` in it stands for the list
so far, so that a file can add to it.
-/

namespace Narrowing

/-- What can be set. -/
structure Settings where
  /-- The header that the output includes. -/
  header : String
  /-- The number of spaces of an indentation level. -/
  indent : Int
  /-- The names of the C integer types to choose from. -/
  integers : List String
  maxJoins : Int
  verbose : Bool
  deriving DecidableEq, Repr

/-- What one file says. -/
structure SettingsFile where
  /-- The values; those that the file does not define mean nothing. -/
  values : Settings
  /-- The groups and names of the settings that the file defines. -/
  defined : List (String × String)
  deriving DecidableEq, Repr

/-- Whether a file defines the setting of a group. -/
def SettingsFile.defines (f : SettingsFile) (group setting : String) : Bool := f.defined.contains (group, setting)

/-- Why settings cannot be used. -/
inductive SettingsError where
  | noIntegers
  | indentTooSmall
  | joinsTooSmall
  | fault (f : Fault)
  deriving DecidableEq, Repr

def SettingsError.message : SettingsError → Option String
  | noIntegers => some "target.integers must not be empty"
  | indentTooSmall => some "target.indent must be at least 1"
  | joinsTooSmall => some "analysis.max_joins must be at least 1"
  | fault f => f.message

namespace Settings

/-- The settings where no file says otherwise. -/
def default : Settings :=
  { header := "whiley.h"
    indent := 4
    integers := Kind.all.map Kind.name
    maxJoins := 8
    verbose := false }

instance : Inhabited Settings := ⟨default⟩

/-- The word that stands for the list so far. -/
def inheritWord : String := "inherit"

/-- A list with the list so far in place of each `inherit`. -/
def splice (soFar own : List String) : List String :=
  own.flatMap fun s => if s == inheritWord then soFar else [s]

/-- The settings as a nearer file changes them. -/
def override (s : Settings) (f : SettingsFile) : Settings :=
  { header := if f.defines "target" "include" then f.values.header else s.header
    indent := if f.defines "target" "indent" then f.values.indent else s.indent
    integers := if f.defines "target" "integers" then splice s.integers f.values.integers else s.integers
    maxJoins := if f.defines "analysis" "max_joins" then f.values.maxJoins else s.maxJoins
    verbose := if f.defines "output" "verbose" then f.values.verbose else s.verbose }

/-- A list with only the first of equal elements.  By now no element may be `inherit`. -/
def distinct (l : List String) : Except Fault (List String) :=
  if l.contains inheritWord then .error .unresolvedInherit else .ok l.eraseDups

/-- The settings if they can be used. -/
def finish (s : Settings) : Except SettingsError Settings :=
  match distinct s.integers with
  | .error f => .error (.fault f)
  | .ok integers =>
    if integers.isEmpty then .error .noIntegers
    else if s.indent < 1 then .error .indentTooSmall
    else if s.maxJoins < 1 then .error .joinsTooSmall
    else .ok { s with integers }

/-- The settings that files make, the farthest one first. -/
def ofChain (files : List SettingsFile) : Except SettingsError Settings := finish (files.foldl override default)

end Settings

/-! ### Options -/

/-- Why settings give no options. -/
inductive OptionsError where
  | unknownKind (name : String)
  | fault (f : Fault)
  deriving DecidableEq, Repr

def OptionsError.message : OptionsError → Option String
  | unknownKind n => some ("unknown integer type " ++ Text.quote n ++ " in target.integers")
  | fault f => f.message

/-- The kind with a name. -/
def kindNamed (name : String) : Except OptionsError Kind :=
  match Kind.ofName? name with
  | some k => .ok k
  | none => .error (.unknownKind name)

/-- The selector for the integer kinds that are named. -/
def Settings.selector (s : Settings) : Except OptionsError Selector := do
  let kinds ← s.integers.mapM kindNamed
  (Selector.ofKinds kinds).mapError .fault

/-- The text of an indentation level.  A text of so many characters can be made if there is room for it. -/
def Settings.indentation (room : Nat → Bool) (s : Settings) : Except Fault String :=
  if 0 ≤ s.indent && room s.indent.toNat then .ok (String.ofList (List.replicate s.indent.toNat ' '))
  else .error .textLength

/-- How to compile with the settings, where there is room for texts as the given test says. -/
def Settings.options (room : Nat → Bool) (s : Settings) : Except OptionsError CompileOptions := do
  let selector ← s.selector
  let indent ← (s.indentation room).mapError .fault
  return ⟨selector, s.maxJoins, ⟨s.header, indent, s.verbose⟩⟩

end Narrowing
