import Narrowing.Fault
import Narrowing.Yaml.Node.Reader

/-!
# The schema of a container

A container lists types and functions.  Fitting a document to the schema goes on past a misfit, so that the lines of all
misfits are known at the end.  Where a null stands, a field keeps what it has, and an item of a list is left out.

Bytecode and bodies are kept as nodes; they are read later.
-/

namespace Narrowing.Container

open Yaml

/-- A variable as a container gives it. -/
structure VariableEntry where
  name : String := ""
  type : String := ""
  deriving DecidableEq, Repr, Inhabited

/-- A type as a container gives it. -/
structure TypeEntry where
  name : String := ""
  type : String := ""
  locals : List VariableEntry := []
  invariant : Option Node := none
  deriving Repr, Inhabited

/-- A function as a container gives it. -/
structure FunctionEntry where
  name : String := ""
  isMethod : Bool := false
  params : List VariableEntry := []
  returns : List String := []
  locals : List VariableEntry := []
  preconditions : List Node := []
  code : Option Node := none
  body : Option Node := none
  deriving Repr, Inhabited

/-- What a container lists. -/
structure Contents where
  types : List TypeEntry := []
  functions : List FunctionEntry := []
  deriving Repr, Inhabited

/-- Why a document has no contents. -/
inductive SchemaError where
  /-- The text is not YAML, a scalar contradicts its tag, or a merge cannot be made. -/
  | unreadable
  /-- The lines of the nodes that do not fit. -/
  | misfits (lines : List Nat)
  | fault (f : Fault)
  deriving DecidableEq, Repr

/-- Fitting to the schema collects the lines of the misfits.  It breaks off at other errors. -/
abbrev Fitting := StateT (List Nat) (Except SchemaError)

namespace Fitting

/-- Nodes do not fit on the given lines. -/
def misfits (lines : List Nat) : Fitting PUnit := modify (· ++ lines)

/-- The lines of the keys that repeat an earlier key, for each such pair. -/
def repeatedLines : List (Node × Node) → List Nat
  | [] => []
  | (k, _) :: es => (es.filter fun e => k.sameKey e.1).map (fun e => e.1.line) ++ repeatedLines es

/-- A mapping does not fit here.  If it repeats keys, that is what is wrong with it. -/
def wrongMapping (line : Nat) (entries : List (Node × Node)) : Fitting PUnit :=
  let repeated := repeatedLines entries
  misfits (if repeated.isEmpty then [line] else repeated)

/-- A scalar must not contradict its tag. -/
def checkTag (tag : Tag) (text : String) : Fitting PUnit := do if !tag.fits text then throw .unreadable

/-- A scalar whose tag and content make a value; nothing for a null. -/
def scalar {α : Type} (value : Tag → String → Option α) (d : Document) (n : Node) : Fitting (Option α) := do
  match d.follow n with
  | .scalar line tag text _ =>
    checkTag tag text
    if tag == .null then return none
    else
      let v := value tag (tag.content text)
      if v.isNone then misfits [line]
      return v
  | .sequence line _ | .link line _ _ =>
    misfits [line]
    return none
  | .mapping line entries =>
    wrongMapping line entries
    return none

/-- The text of any scalar. -/
def text : Document → Node → Fitting (Option String) := scalar fun _ s => some s

/-- Truth values: those of the format, and words for yes and no. -/
def truthValue (tag : Tag) (s : String) : Option Bool :=
  match tag with
  | .bool => some (["true", "True", "TRUE"].contains s)
  | .int | .float | .timestamp => none
  | _ =>
    if ["y", "Y", "yes", "Yes", "YES", "on", "On", "ON"].contains s then some true
    else if ["n", "N", "no", "No", "NO", "off", "Off", "OFF"].contains s then some false
    else none

def truth : Document → Node → Fitting (Option Bool) := scalar truthValue

/-- A list; items that give nothing are left out. -/
def items {α : Type} (item : Document → Node → Fitting (Option α)) (d : Document) (n : Node) :
    Fitting (Option (List α)) := do
  match d.follow n with
  | .scalar line tag s _ =>
    checkTag tag s
    if tag == .null then return some []
    else
      misfits [line]
      return none
  | .sequence _ nodes => return some ((← nodes.mapM (item d)).filterMap id)
  | .mapping line entries =>
    wrongMapping line entries
    return none
  | .link line _ _ =>
    misfits [line]
    return none

/-- A node kept for later. -/
def anyNode (_ : Document) (n : Node) : Fitting (Option Node) := return some n

/-! ### Records -/

/-- How a field of a record takes a node. -/
abbrev Setter (σ : Type) := Document → Node → σ → Fitting σ

/-- A field that is set to what a node gives, and stays as it is if the node gives nothing. -/
def setter {σ α : Type} (fit : Document → Node → Fitting (Option α)) (set : σ → α → σ) : Setter σ :=
  fun d n r => do
    match ← fit d n with
    | some v => return set r v
    | none => return r

/-- The fields of a record by their keys. -/
structure Shape (σ : Type) where
  fields : List (String × Setter σ)
  /-- Whether other keys are misfits. -/
  closed : Bool

/-- A record that is being fitted. -/
structure Filling (σ : Type) where
  record : σ
  /-- The fields set by the mapping at hand. -/
  set : List String := []
  /-- In a merge: the keys that are taken. -/
  taken : Option (List String) := none
  /-- What to merge in at the end. -/
  source : Option Node := none

def isMergeKey : Node → Bool
  | .scalar _ .merge "<<" _ => true
  | _ => false

/-- One entry of a mapping fitted to a record. -/
def entry {σ : Type} (shape : Shape σ) (d : Document) (f : Filling σ) (k v : Node) : Fitting (Filling σ) := do
  if isMergeKey k then return { f with source := some v }
  else
    match ← text d k with
    | none => return f
    | some name =>
      if f.taken.any (·.contains name) then return f
      else
        let f := { f with taken := f.taken.map (name :: ·) }
        match shape.fields.lookup name with
        | some put =>
          if f.set.contains name then
            misfits [k.line]
            return f
          else
            return { f with record := ← put d v f.record, set := name :: f.set }
        | none =>
          if shape.closed then misfits [k.line]
          return f

/-! ### Keys

A merge leaves alone what a mapping itself has.  So before it is made, the keys of the mapping are taken for what they
are, whatever the schema wants.  A list or a mapping can be a key of a mapping only where keys are never looked up. -/

/-- What a key stands for. -/
inductive Key where
  | text (s : String)
  /-- A scalar other than a text. -/
  | atom (tag : Tag) (s : String)
  | collection
  deriving DecidableEq, Repr

/-- A key that is looked up in a merge must not be a collection. -/
def lookUp (k : Key) : Fitting PUnit := do if k == .collection then throw (.fault .collectionKey)

/-- The nodes that a merge brings in: one, or those of a sequence. -/
def mergeSources : Node → List Node
  | .sequence _ nodes => nodes
  | m => [m]

mutual

/-- What a node stands for, taken as it is; nothing for a mapping with repeated keys.  A node must not be reached again
from inside itself; `path` are the named nodes around.  In a merge `taken` are the keys that are no longer touched. -/
def plainValue (d : Document) : Nat → List Nat → Option (List Key) → Node → Fitting (Option Key)
  | 0, _, _, _ => throw .unreadable
  | fuel + 1, path, taken, n => do
    match n with
    | .scalar _ tag s _ =>
      checkTag tag s
      if [.int, .float, .bool, .null, .timestamp].contains tag then return some (.atom tag s)
      else return some (.text (tag.content s))
    | .sequence _ nodes =>
      for m in nodes do
        let _ ← plainValue d fuel path taken m
      return some .collection
    | .mapping _ entries =>
      let isText (k : Node) : Bool :=
        match d.follow k with
        | .scalar _ tag _ _ => tag == .str || tag == .merge
        | _ => false
      return (← plainEntries d fuel path taken (entries.all fun e => isText e.1) entries).map fun _ => .collection
    | .link _ _ target =>
      if path.contains target then throw .unreadable
      else
        match d.named.lookup target with
        | some m => plainValue d fuel (target :: path) taken m
        | none => throw .unreadable

/-- The entries of a mapping, taken as they are, and the keys that are taken then. -/
def plainEntries (d : Document) : Nat → List Nat → Option (List Key) → (textKeys : Bool) → List (Node × Node) →
    Fitting (Option (Option (List Key)))
  | 0, _, _, _, _ => throw .unreadable
  | fuel + 1, path, taken, textKeys, entries => do
    let repeated := repeatedLines entries
    if !repeated.isEmpty then
      misfits repeated
      return none
    else
      let step (taken : Option (List Key)) (e : Node × Node) : Fitting (Option (List Key)) := do
        if isMergeKey e.1 then return taken
        else
          let key ← if textKeys then (Option.map Key.text) <$> text d e.1 else plainValue d fuel path none e.1
          match key, taken with
          | none, _ => return taken
          | some k, some ks =>
            lookUp k
            if ks.contains k then return taken
            else
              let _ ← plainValue d fuel path none e.2
              return some (k :: ks)
          | some k, none =>
            if k == .collection then throw .unreadable
            let _ ← plainValue d fuel path none e.2
            return none
      let after ← entries.foldlM step taken
      match (entries.filter fun e => isMergeKey e.1).head? with
      | none => return some after
      | some (_, source) =>
        let keys ←
          match after with
          | some ks => pure ks
          | none => plainKeys d fuel path entries
        let merge (ks : List Key) (m : Node) : Fitting (List Key) := do
          match m, d.follow m with
          | .link _ _ target, .mapping _ es =>
            if path.contains target then throw .unreadable
            return ((← plainEntries d fuel (target :: path) (some ks) textKeys es).join).getD ks
          | _, .mapping _ es => return ((← plainEntries d fuel path (some ks) textKeys es).join).getD ks
          | _, _ => throw .unreadable
        let merged ← (mergeSources source).foldlM merge keys
        return some (taken.map fun _ => merged)

/-- The keys of a mapping that is about to be merged into; they are taken one after the other. -/
def plainKeys (d : Document) : Nat → List Nat → List (Node × Node) → Fitting (List Key)
  | 0, _, _ => throw .unreadable
  | fuel + 1, path, entries => do
    let mut keys := []
    for e in entries do
      match ← plainValue d fuel path (some keys) e.1 with
      | some k =>
        lookUp k
        keys := k :: keys
      | none => pure ()
    return keys

end

/-- A bound for how deep nodes can be reached from each other. -/
def depth (d : Document) : Nat := (d.root.count + 2) * (d.named.length + 2)

/-- The keys of a mapping that are texts. -/
def textKeys (d : Document) (entries : List (Node × Node)) : Fitting (List String) := do
  return (← plainKeys d (3 * depth d) [] entries).filterMap fun k =>
    match k with
    | .text s => some s
    | _ => none

/-- A mapping fitted to a record that may hold values already; nothing for a null or a misfit.  Merges reach further
mappings; a merge that reaches itself has no end, so it is broken off after as many as there are nodes. -/
def fill {σ : Type} (shape : Shape σ) (d : Document) : Nat → Node → σ → Option (List String) →
    Fitting (Option (σ × Option (List String)))
  | 0, _, _, _ => throw .unreadable
  | fuel + 1, n, r, taken => do
    match d.follow n with
    | .scalar line tag s _ =>
      checkTag tag s
      if tag != .null then misfits [line]
      return none
    | .sequence line _ | .link line _ _ =>
      misfits [line]
      return none
    | .mapping _ entries =>
      let repeated := repeatedLines entries
      if !repeated.isEmpty then
        misfits repeated
        return none
      else
        let f ← entries.foldlM (fun f e => entry shape d f e.1 e.2) { record := r, taken }
        match f.source with
        | none => return some (f.record, f.taken)
        | some source =>
          let keys ←
            match f.taken with
            | some ks => pure ks
            | none => textKeys d entries
          let merge (acc : σ × Option (List String)) (m : Node) : Fitting (σ × Option (List String)) := do
            match d.follow m with
            | .mapping _ _ => return (← fill shape d fuel m acc.1 acc.2).getD acc
            | _ => throw .unreadable
          let (r, merged) ← (mergeSources source).foldlM merge (f.record, some keys)
          return some (r, if f.taken.isSome then merged else none)

/-- A record. -/
def record {σ : Type} [Inhabited σ] (shape : Shape σ) (d : Document) (n : Node) : Fitting (Option σ) := do
  return (← fill shape d (d.root.count + 1) n default none).map (·.1)

/-! ### The schema -/

def variableEntry (closed : Bool) : Document → Node → Fitting (Option VariableEntry) :=
  record
    { closed
      fields := [
        ("name", setter text fun v s => { v with name := s }),
        ("type", setter text fun v s => { v with type := s })] }

def typeEntry : Document → Node → Fitting (Option TypeEntry) :=
  record
    { closed := true
      fields := [
        ("name", setter text fun t s => { t with name := s }),
        ("type", setter text fun t s => { t with type := s }),
        ("locals", setter (items (variableEntry true)) fun t vs => { t with locals := vs }),
        ("invariant", setter anyNode fun t n => { t with invariant := some n })] }

def functionEntry : Document → Node → Fitting (Option FunctionEntry) :=
  record
    { closed := true
      fields := [
        ("name", setter text fun f s => { f with name := s }),
        ("method", setter truth fun f b => { f with isMethod := b }),
        ("params", setter (items (variableEntry true)) fun f vs => { f with params := vs }),
        ("returns", setter (items text) fun f ts => { f with returns := ts }),
        ("locals", setter (items (variableEntry true)) fun f vs => { f with locals := vs }),
        ("precondition", setter (items anyNode) fun f ns => { f with preconditions := ns }),
        ("code", setter anyNode fun f n => { f with code := some n }),
        ("body", setter anyNode fun f n => { f with body := some n })] }

def contents : Document → Node → Fitting (Option Contents) :=
  record
    { closed := true
      fields := [
        ("types", setter (items typeEntry) fun c ts => { c with types := ts }),
        ("functions", setter (items functionEntry) fun c fs => { c with functions := fs })] }

end Fitting

/-- What a fitting gives, if there were no misfits. -/
def Fitting.result {α : Type} (f : Fitting α) : Except SchemaError α :=
  match f.run [] with
  | .error e => .error e
  | .ok (a, []) => .ok a
  | .ok (_, lines) => .error (.misfits lines)

end Narrowing.Container
