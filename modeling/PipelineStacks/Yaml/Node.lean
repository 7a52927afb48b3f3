import PipelineStacks.Yaml.Cursor

/-!
# Nodes

What a document holds: scalars, sequences and mappings, in which an alias may stand for a node that
was named by an anchor.

Anchors are numbered.  A node may be named again under a number that another node has already, and
then every alias with that number, also one in front, stands for the last of them:
`Document.target?`.
-/

namespace PipelineStacks.Yaml

/-- What may stand in front of a node. -/
structure Properties where
  /-- The number of the anchor. -/
  anchor : Option Nat := none
  tag : Option String := none
deriving DecidableEq, Repr, Inhabited

/-- A node of a document. -/
inductive Node
  /-- The text of a scalar, and whether it was written without quotes or a block indicator. -/
  | scalar (properties : Properties) (text : String) (plain : Bool)
  | sequence (properties : Properties) (items : List Node)
  | mapping (properties : Properties) (entries : List (Node × Node))
  /-- Stands for the node with this anchor. -/
  | alias (anchor : Nat)
deriving Repr, Inhabited

/-- The scalar that stands where nothing is written. -/
def Node.empty (properties : Properties) : Node :=
  .scalar properties "" true

/-- The node itself under the number of its anchor. -/
def Properties.named (p : Properties) (n : Node) : List (Nat × Node) :=
  p.anchor.toList.map (·, n)

mutual

/-- The nodes with anchors, in the order in which they start. -/
def Node.anchored : Node → List (Nat × Node)
  | .scalar p text plain => p.named (.scalar p text plain)
  | .sequence p items => p.named (.sequence p items) ++ Node.anchoredItems items
  | .mapping p entries => p.named (.mapping p entries) ++ Node.anchoredEntries entries
  | .alias _ => []

/-- The nodes with anchors among items. -/
def Node.anchoredItems : List Node → List (Nat × Node)
  | [] => []
  | n :: ns => n.anchored ++ Node.anchoredItems ns

/-- The nodes with anchors among entries. -/
def Node.anchoredEntries : List (Node × Node) → List (Nat × Node)
  | [] => []
  | (k, v) :: es => k.anchored ++ v.anchored ++ Node.anchoredEntries es

end

mutual

/-- How many parts a node has: a collection counts for its start and its end. -/
def Node.size : Node → Nat
  | .scalar .. | .alias _ => 1
  | .sequence _ items => 2 + Node.sizeItems items
  | .mapping _ entries => 2 + Node.sizeEntries entries

/-- How many parts items have. -/
def Node.sizeItems : List Node → Nat
  | [] => 0
  | n :: ns => n.size + Node.sizeItems ns

/-- How many parts entries have. -/
def Node.sizeEntries : List (Node × Node) → Nat
  | [] => 0
  | (k, v) :: es => k.size + v.size + Node.sizeEntries es

end

/-- A document.  A text that holds none counts as one without a root. -/
structure Document where
  root : Option Node
deriving Repr, Inhabited

/-- The node that an alias stands for. -/
def Document.target? (d : Document) (anchor : Nat) : Option Node :=
  match d.root with
  | some n => (n.anchored.reverse.find? (·.1 = anchor)).map (·.2)
  | none => none

/-- How many aliases may be followed while a document is read. -/
def Document.aliasLimit (d : Document) : Nat :=
  100 * match d.root with
    | some n => n.size
    | none => 1

/-- The documents of a text, up to its first fault. -/
structure DocumentStream where
  documents : List Document
  fault : Option SyntaxError

end PipelineStacks.Yaml
