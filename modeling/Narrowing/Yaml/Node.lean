import Narrowing.Yaml.Tag

/-!
# Nodes and documents

A document is a tree of nodes.  An alias stands for a node that was given a name earlier; it may be the name of a node
around it, so aliases are kept as they are, and the document holds the named nodes beside the tree.
-/

namespace Narrowing.Yaml

/-- A node; lines count from 1. -/
inductive Node where
  /-- A scalar.  `isBlock` if it is a literal or folded block without a tag, whose text starts on the next line. -/
  | scalar (line : Nat) (tag : Tag) (text : String) (isBlock : Bool)
  | sequence (line : Nat) (items : List Node)
  | mapping (line : Nat) (entries : List (Node × Node))
  /-- The name, and the place of the node it stands for among the named nodes. -/
  | link (line : Nat) (name : String) (target : Nat)
  deriving Repr, Inhabited

namespace Node

def line : Node → Nat
  | scalar l _ _ _ | sequence l _ | mapping l _ | link l _ _ => l

/-- The text of a scalar, the name of an alias, and nothing else. -/
def text : Node → String
  | scalar _ _ t _ => t
  | link _ n _ => n
  | sequence _ _ | mapping _ _ => ""

/-- Whether two keys count as the same: they are of one kind and have the same text. -/
def sameKey : Node → Node → Bool
  | scalar _ _ s _, scalar _ _ t _ => s == t
  | sequence _ _, sequence _ _ => true
  | mapping _ _, mapping _ _ => true
  | link _ s _, link _ t _ => s == t
  | _, _ => false

mutual

/-- How many nodes there are in a node. -/
def count : Node → Nat
  | scalar .. | link .. => 1
  | sequence _ items => countItems items + 1
  | mapping _ entries => countEntries entries + 1

def countItems : List Node → Nat
  | [] => 0
  | n :: ns => count n + countItems ns

def countEntries : List (Node × Node) → Nat
  | [] => 0
  | (k, v) :: es => count k + count v + countEntries es

end

end Node

/-- A document: its root and the nodes that were named. -/
structure Document where
  root : Node
  named : List (Nat × Node) := []
  deriving Repr, Inhabited

/-- The node itself, or the one an alias stands for. -/
def Document.follow (d : Document) : Node → Node
  | .link line name target => (d.named.lookup target).getD (.link line name target)
  | n => n

end Narrowing.Yaml
