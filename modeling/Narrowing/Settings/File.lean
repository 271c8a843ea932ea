import Narrowing.Settings
import Narrowing.Toml.Document

/-!
# Files of settings

A file has a table for each group of settings.  How its text is decoded is left open: a decoder gives the values, says
which settings the file defines, and names the keys that are none.  In the one for TOML, keys fit a setting in any case
of letters, and their values must be of its kind; but only a key in lower case takes effect.
-/

namespace Narrowing

open Toml (Document Key Value)

/-- How the text of a file is decoded: what the file says and the keys in it that are no settings, in their order;
nothing if it cannot be decoded. -/
abbrev SettingsDecoder := String → Option (SettingsFile × List Key)

/-- Why a file says nothing. -/
inductive SettingsFileError where
  | unreadable
  | unknownKey (key : Key)
  deriving DecidableEq, Repr

/-- What the text of a file says.  Of several unknown keys, the first one is named. -/
def SettingsFile.read (decode : SettingsDecoder) (text : String) : Except SettingsFileError SettingsFile :=
  match decode text with
  | none => .error .unreadable
  | some (_, key :: _) => .error (.unknownKey key)
  | some (f, []) => .ok f

/-! ### The decoder for TOML -/

/-- What a setting holds. -/
inductive SettingKind where
  | text
  | number
  | truth
  | texts
  deriving DecidableEq, Repr

/-- Whether a value is of the kind. -/
def SettingKind.admits : SettingKind → Value → Bool
  | text, .text _ => true
  | number, .int _ => true
  | truth, .bool _ => true
  | texts, .array items => items.all (fun v => v matches .text _)
  | _, _ => false

/-- The groups of settings, and the settings in each. -/
def settingGroups : List (String × List (String × SettingKind)) :=
  [("target", [("include", .text), ("indent", .number), ("integers", .texts)]),
    ("analysis", [("max_joins", .number)]),
    ("output", [("verbose", .truth)])]

/-- The lower case of a letter, and what else counts as a case of it. -/
def foldedChar (c : Char) : Char := if c == '\u017f' then 's' else if c == '\u212a' then 'k' else c.toLower

/-- What a list holds under a key in any case of letters. -/
def lookupFolded? {α : Type} (key : String) (l : List (String × α)) : Option α :=
  l.lookup (String.ofList (key.toList.map foldedChar))

/-- Whether the values that fit a setting are of its kind. -/
def admitsAll (d : Document) : Bool :=
  d.root.all fun (k, v) =>
    match lookupFolded? k settingGroups, v with
    | none, _ => true
    | some settings, .table t => t.all fun (f, w) => (lookupFolded? f settings).all (·.admits w)
    | some _, _ => false

/-- Whether a key is that of a setting or a group. -/
def isSettingKey : Key → Bool
  | [g] => (lookupFolded? g settingGroups).isSome
  | [g, s] => ((lookupFolded? g settingGroups).bind (lookupFolded? s)).isSome
  | _ => false

/-- The value of a setting, by the exact name of its group and its own. -/
def valueAt? (d : Document) (group setting : String) : Option Value :=
  match d.root.lookup group with
  | some (.table t) => t.lookup setting
  | _ => none

def text? : Value → Option String
  | .text s => some s
  | _ => none

def number? : Value → Option Int
  | .int n => some n
  | _ => none

def truth? : Value → Option Bool
  | .bool b => some b
  | _ => none

def texts? : Value → Option (List String)
  | .array items => some (items.filterMap text?)
  | _ => none

/-- What a document says. -/
def SettingsFile.ofDocument (d : Document) : SettingsFile :=
  { values :=
      { header := ((valueAt? d "target" "include").bind text?).getD ""
        indent := ((valueAt? d "target" "indent").bind number?).getD 0
        integers := ((valueAt? d "target" "integers").bind texts?).getD []
        maxJoins := ((valueAt? d "analysis" "max_joins").bind number?).getD 0
        verbose := ((valueAt? d "output" "verbose").bind truth?).getD false }
    defined := d.root.flatMap fun (group, v) =>
      match v with
      | .table t => t.map fun (setting, _) => (group, setting)
      | _ => [] }

/-- The text must be TOML, and the values of the right kinds. -/
def SettingsDecoder.toml : SettingsDecoder := fun text => do
  let d ← Document.read? text
  if admitsAll d then some (.ofDocument d, d.keys.filter (!isSettingKey ·)) else none

end Narrowing
