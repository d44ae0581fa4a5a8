import PipelineCompiler.Yaml.Tag

namespace PipelineCompiler.Yaml

/-!
# Nodes

A document is a table of nodes.  The parts of a node are given by their places in the table, and
an alias is the place of the node that it names.  So one node may be a part of several others,
and even of itself.

* `Content`, `Node` — scalars, sequences and mappings with their types;
* `Nodes` — the table, and how it is looked up and changed;
* `Document` — the nodes of a document; the whole document is the node at the place zero.
-/

/-- An entry of a mapping: the places of its key and of its value. -/
abbrev Entry := Nat × Nat

/-- What a node holds. -/
inductive Content where
  | scalar (text : String)
  | sequence (items : List Nat)
  | mapping (entries : List Entry)
deriving Repr, DecidableEq, Inhabited

/-- A node. -/
structure Node where
  tag : Tag
  content : Content
deriving Repr, DecidableEq

/-- A node without text. -/
def Node.empty : Node := { tag := .null, content := .scalar "" }

/-- The nodes of a document by their places. -/
abbrev Nodes := Array Node

namespace Nodes

/-- The node at a place. -/
def node (nodes : Nodes) (place : Nat) : Node := nodes.getD place .empty

/-- The type of the node at a place. -/
def tag (nodes : Nodes) (place : Nat) : Tag := (nodes.node place).tag

/-- The content of the node at a place. -/
def content (nodes : Nodes) (place : Nat) : Content := (nodes.node place).content

/-- The entries of the mapping at a place; other nodes have none. -/
def entries (nodes : Nodes) (place : Nat) : List Entry :=
  match nodes.content place with
  | .mapping entries => entries
  | _ => []

/-- Gives the mapping at a place other entries. -/
def withEntries (nodes : Nodes) (place : Nat) (entries : List Entry) : Nodes :=
  nodes.setIfInBounds place { nodes.node place with content := .mapping entries }

/-- Gives the node at a place another type. -/
def withTag (nodes : Nodes) (place : Nat) (tag : Tag) : Nodes :=
  nodes.setIfInBounds place { nodes.node place with tag }

end Nodes

/-- The nodes of a document. -/
structure Document where
  nodes : Nodes
  /-- Whether a node is named by an alias. -/
  hasAliases : Bool
  /-- Whether an alias names a node that it is a part of. -/
  isKnotted : Bool

end PipelineCompiler.Yaml
