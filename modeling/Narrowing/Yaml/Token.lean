/-!
# Tokens

Tokens carry the structure of a text: where block and flow collections start and end, what is a key and what a value,
and the directives, anchors, aliases, tags and scalars between.
-/

namespace Narrowing.Yaml

/-- How a scalar is written. -/
inductive Style where
  | plain
  | quoted
  | block
  deriving DecidableEq, Repr

/-- The kinds of tokens. -/
inductive Lexeme where
  | textStart
  | textEnd
  | version (major minor : Nat)
  /-- What a handle of tags stands for. -/
  | handle (name stem : String)
  | documentStart
  | documentEnd
  | blockSequence
  | blockMapping
  | blockEnd
  | flowSequence
  | flowSequenceEnd
  | flowMapping
  | flowMappingEnd
  | blockEntry
  | flowEntry
  | key
  | value
  | link (name : String)
  | anchor (name : String)
  /-- A tag; without a handle the name is the tag in full. -/
  | tag (handle name : String)
  | scalar (text : String) (style : Style)
  deriving DecidableEq, Repr

/-- A token and the line it starts on, from 0. -/
structure Token where
  line : Nat
  lexeme : Lexeme
  deriving DecidableEq, Repr

end Narrowing.Yaml
