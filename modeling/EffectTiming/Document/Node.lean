import EffectTiming.Document.Value

/-!
# Nodes

A document is a tree of scalars, sequences and mappings. An alias stands for a node with an anchor;
anchors and aliases are numbered in the order in which they occur.
-/

namespace EffectTiming.Document

/-- A node with the line on which it starts, counted from one. -/
inductive Node where
  | scalar (line : Nat) (tag value : String)
  | sequence (line : Nat) (tag : String) (items : List Node)
  | mapping (line : Nat) (tag : String) (entries : List (Node × Node))
  /-- An alias with the number of its anchor and its own. -/
  | alias (line : Nat) (name : String) (target number : Nat)
  deriving Inhabited

namespace Node

/-- The line on which a node starts. -/
def line : Node → Nat
  | .scalar line .. | .sequence line .. | .mapping line .. | .alias line .. => line

/-- The text by which a key is recognised: that of a scalar, or the name of an alias. -/
def label : Node → String
  | .scalar _ _ value => value
  | .alias _ name .. => name
  | .sequence .. | .mapping .. => ""

/-- Two nodes are of the same kind. -/
def sameKind : Node → Node → Bool
  | .scalar .., .scalar .. => true
  | .sequence .., .sequence .. => true
  | .mapping .., .mapping .. => true
  | .alias .., .alias .. => true
  | _, _ => false

/-- The scalar without text. -/
def empty (line : Nat) : Node := .scalar line "!!null" ""

end Node

/-- The root of a document, its nodes with anchors by their numbers, and a number that no chain of
nodes inside one another exceeds, even if aliases are followed, each of them once. -/
structure Tree where
  root : Node
  anchored : List (Nat × Node) := []
  depth : Nat

end EffectTiming.Document
