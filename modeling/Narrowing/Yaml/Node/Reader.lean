import Narrowing.Yaml.Node
import Narrowing.Yaml.Token.Lexer

/-!
# Reading documents

Only the first document of a text is read.  What is behind it is of no concern, as long as the text can be read two
tokens past its end.
-/

namespace Narrowing.Yaml

/-- The tokens still to be read, what the handles of tags stand for, the places of the names seen so far, and the named
nodes that are complete. -/
structure Progress where
  lexer : Lexer
  handles : List (String × String) := []
  places : List (String × Nat) := []
  named : List (Nat × Node) := []

/-- Reading of nodes; nothing if the tokens are not those of a document. -/
abbrev Reading := ReaderT Nat (StateT Progress Option)

namespace Reading

/-- The next token.  The number that all of reading shares bounds the steps that it takes to get there. -/
def peek : Reading Token := do
  match (← get).lexer.prepare (← read) with
  | some x =>
    modify fun p => { p with lexer := x }
    match x.queue with
    | t :: _ => return t
    | [] => failure
  | none => failure

def skip : Reading PUnit := modify fun p => { p with lexer := p.lexer.take }

/-- Whether the next token is one of the given kinds. -/
def isAt (kinds : List Lexeme) : Reading Bool := do return kinds.contains (← peek).lexeme

/-- A scalar that is not there. -/
def absent (line : Nat) : Node := .scalar (line + 1) .null "" false

/-- A scalar, by its tag if it has one. -/
def scalarNode (line : Nat) (tag : Option Tag) (text : String) (style : Style) : Node :=
  match tag with
  | some t => .scalar (line + 1) t text false
  | none => .scalar (line + 1) (if style == .plain then Tag.ofPlain text else .str) text (style == .block)

/-- What stands in front of the content of a node. -/
structure Properties where
  /-- The line of the first of them. -/
  line : Option Nat := none
  /-- The place of the node among the named ones. -/
  place : Option Nat := none
  /-- The tag, unless it is the exclamation mark alone. -/
  tag : Option Tag := none

/-- Note that a name now stands for the node at a new place. -/
def nameNode (name : String) : Reading Nat := do
  let place := (← get).places.length
  modify fun p => { p with places := (name, place) :: p.places }
  return place

/-- The tag that a handle and a name stand for. -/
def tagOf (handle name : String) : Reading (Option Tag) := do
  if handle.isEmpty then return Tag.ofName? name
  else
    match (← get).handles.lookup handle with
    | some stem => return Tag.ofName? (stem ++ name)
    | none => failure

/-- At most one anchor and one tag, in either order. -/
def properties : Reading Properties := do
  let t ← peek
  match t.lexeme with
  | .anchor name =>
    skip
    let place ← nameNode name
    let u ← peek
    match u.lexeme with
    | .tag handle name =>
      skip
      let _ ← peek
      return { line := some t.line, place := some place, tag := ← tagOf handle name }
    | _ => return { line := some t.line, place := some place }
  | .tag handle name =>
    skip
    let u ← peek
    match u.lexeme with
    | .anchor anchor =>
      skip
      let place ← nameNode anchor
      let _ ← peek
      return { line := some t.line, place := some place, tag := ← tagOf handle name }
    | _ => return { line := some t.line, tag := ← tagOf handle name }
  | _ => return {}

/-- Record a complete node under its name. -/
def finish (p : Properties) (n : Node) : Reading Node := do
  match p.place with
  | some place => modify fun s => { s with named := (place, n) :: s.named }
  | none => pure ()
  return n

mutual

/-- A node.  Block collections are read only where they may stand, and a sequence at the column of its key only where
`atKey` holds. -/
def node (inBlock atKey : Bool) : Nat → Reading Node
  | 0 => failure
  | fuel + 1 => do
    let first ← peek
    match first.lexeme with
    | .link name =>
      skip
      match (← get).places.lookup name with
      | some place => return .link (first.line + 1) name place
      | none => failure
    | _ =>
      let p ← properties
      let t ← peek
      let line := p.line.getD t.line
      match t.lexeme, inBlock with
      | .scalar text style, _ =>
        skip
        finish p (scalarNode line p.tag text style)
      | .flowSequence, _ =>
        skip
        finish p (.sequence (line + 1) (← flowItems true fuel))
      | .flowMapping, _ =>
        skip
        finish p (.mapping (line + 1) (← flowEntries true fuel))
      | .blockSequence, true =>
        skip
        finish p (.sequence (line + 1) (← blockItems fuel))
      | .blockMapping, true =>
        skip
        finish p (.mapping (line + 1) (← blockEntries fuel))
      | l, _ =>
        if atKey && l == .blockEntry then finish p (.sequence (line + 1) (← bareItems fuel))
        else if p.line.isSome then finish p (scalarNode line p.tag "" .plain)
        else failure

/-- The items of a block sequence. -/
def blockItems : Nat → Reading (List Node)
  | 0 => failure
  | fuel + 1 => do
    let t ← peek
    match t.lexeme with
    | .blockEntry =>
      skip
      let item ← if ← isAt [.blockEntry, .blockEnd] then pure (absent t.line) else node true false fuel
      return item :: (← blockItems fuel)
    | .blockEnd =>
      skip
      return []
    | _ => failure

/-- The items of a sequence at the column of its key. -/
def bareItems : Nat → Reading (List Node)
  | 0 => failure
  | fuel + 1 => do
    let t ← peek
    match t.lexeme with
    | .blockEntry =>
      skip
      let item ←
        if ← isAt [.blockEntry, .key, .value, .blockEnd] then pure (absent t.line) else node true false fuel
      return item :: (← bareItems fuel)
    | _ => return []

/-- The entries of a block mapping. -/
def blockEntries : Nat → Reading (List (Node × Node))
  | 0 => failure
  | fuel + 1 => do
    let t ← peek
    match t.lexeme with
    | .key =>
      skip
      let key ← if ← isAt [.key, .value, .blockEnd] then pure (absent t.line) else node true true fuel
      let u ← peek
      let value ←
        if u.lexeme == .value then do
          skip
          if ← isAt [.key, .value, .blockEnd] then pure (absent u.line) else node true true fuel
        else pure (absent u.line)
      return (key, value) :: (← blockEntries fuel)
    | .blockEnd =>
      skip
      return []
    | _ => failure

/-- The items of a flow sequence, from the first or from behind an item. -/
def flowItems (first : Bool) : Nat → Reading (List Node)
  | 0 => failure
  | fuel + 1 => do
    if ← isAt [.flowSequenceEnd] then
      skip
      return []
    else
      if !first then do
        if ← isAt [.flowEntry] then skip else failure
      let t ← peek
      match t.lexeme with
      | .flowSequenceEnd =>
        skip
        return []
      | .key =>
        skip
        let item ← flowPair t.line fuel
        return item :: (← flowItems false fuel)
      | _ =>
        let item ← node false false fuel
        return item :: (← flowItems false fuel)

/-- A mapping of one pair, an item of a flow sequence. -/
def flowPair (line : Nat) : Nat → Reading Node
  | 0 => failure
  | fuel + 1 => do
    let t ← peek
    let key ←
      if ← isAt [.value, .flowEntry, .flowSequenceEnd] then do
        skip
        pure (absent t.line)
      else node false false fuel
    let value ← flowValue .flowSequenceEnd true fuel
    return .mapping (line + 1) [(key, value)]

/-- The value behind a key in a flow collection that ends with the given token.  An absent value is on the line of the
token that stands in its place, or, for `atColon`, of the colon in front of it. -/
def flowValue (last : Lexeme) (atColon : Bool) : Nat → Reading Node
  | 0 => failure
  | fuel + 1 => do
    let t ← peek
    if t.lexeme == .value then
      skip
      let u ← peek
      if [.flowEntry, last].contains u.lexeme then return absent (if atColon then t.line else u.line)
      else node false false fuel
    else return absent t.line

/-- The entries of a flow mapping, from the first or from behind an entry. -/
def flowEntries (first : Bool) : Nat → Reading (List (Node × Node))
  | 0 => failure
  | fuel + 1 => do
    if ← isAt [.flowMappingEnd] then
      skip
      return []
    else
      if !first then do
        if ← isAt [.flowEntry] then skip else failure
      let t ← peek
      match t.lexeme with
      | .flowMappingEnd =>
        skip
        return []
      | .key =>
        skip
        let u ← peek
        let key ←
          if ← isAt [.value, .flowEntry, .flowMappingEnd] then pure (absent u.line) else node false false fuel
        let value ← flowValue .flowMappingEnd false fuel
        return (key, value) :: (← flowEntries false fuel)
      | _ =>
        let key ← node false false fuel
        let value := absent (← peek).line
        return (key, value) :: (← flowEntries false fuel)

end

/-- Directives.  There may be one version, which must be that of this reader, and one stem for each handle. -/
def directives (versionSeen : Bool) : Nat → Reading PUnit
  | 0 => failure
  | fuel + 1 => do
    match (← peek).lexeme with
    | .version major minor =>
      if versionSeen || major != 1 || minor != 1 then failure
      else
        skip
        directives true fuel
    | .handle name stem =>
      if ((← get).handles.lookup name).isSome then failure
      else
        modify fun p => { p with handles := (name, stem) :: p.handles }
        skip
        directives versionSeen fuel
    | _ => modify fun p => { p with handles := p.handles ++ [("!", "!"), ("!!", "tag:yaml.org,2002:")] }

/-- The root of the first document, and nothing if the text holds none. -/
def root (fuel : Nat) : Reading (Option Node) := do
  let _ ← peek
  skip
  let t ← peek
  match t.lexeme with
  | .textEnd => return none
  | .version .. | .handle .. | .documentStart =>
    directives false fuel
    if ← isAt [.documentStart] then
      skip
      let u ← peek
      match u.lexeme with
      | .version .. | .handle .. | .documentStart | .documentEnd | .textEnd => return some (absent u.line)
      | _ =>
        let n ← node true false fuel
        let _ ← peek
        return some n
    else failure
  | _ =>
    directives false fuel
    let n ← node true false fuel
    let _ ← peek
    return some n

end Reading

/-- The first document of a text: nothing if the text is not YAML, and no document if it is empty.  Each token but the
ends of blocks takes a character, and a block starts with one, so that a multiple of the number of characters bounds the
number of steps. -/
def Document.read? (text : String) : Option (Option Document) := do
  let layout := Layout.ofText text
  let size := layout.spots.length + 4
  let (root, p) ← ((Reading.root (8 * size)).run size).run { lexer := .ofLayout layout }
  return root.map fun n => { root := n, named := p.named }

end Narrowing.Yaml
