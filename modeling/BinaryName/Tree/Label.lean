import BinaryName.Tree.Basic

/-!
# Labels

A label marks a node of a tree and may carry the name that the node is expected to have.  A
reference picks a node of a labelled tree, by handle or by label.  A handle that is looked up counts
from the start only; a node that has been met as a parent or child is taken as it is.
-/

namespace BinaryName

/-- A mark on a node. -/
structure Label where
  /-- The text of the label. -/
  text : String
  /-- The marked node. -/
  node : Handle
  /-- The name that the node is expected to have. -/
  expected : Option String
  deriving DecidableEq, Repr

/-- A tree with labels on its nodes. -/
structure LabelledTree where
  /-- The tree. -/
  tree : ScopeTree
  /-- The labels, in the order in which they were met. -/
  labels : List Label
  deriving DecidableEq, Repr

/-- A way to pick a node. -/
inductive Reference where
  /-- The node is looked up by its handle. -/
  | handle (node : Handle)
  /-- The node is looked up by a label. -/
  | label (text : String)
  /-- The node has been met before. -/
  | met (node : Handle)
  deriving DecidableEq, Repr

/-- Why a reference picks no node. -/
inductive ReferenceFault where
  /-- The handle lies outside the tree. -/
  | outOfRange (node : Handle) (size : Nat)
  /-- No node has the label. -/
  | unknownLabel (text : String)
  deriving DecidableEq, Repr

/-- The wording of a reference fault. -/
def ReferenceFault.message : ReferenceFault → String
  | .outOfRange node size =>
      "handle " ++ toString node ++ " out of range for tree of size " ++ toString size
  | .unknownLabel text => text

namespace LabelledTree

/-- A tree without labels. -/
def ofTree (tree : ScopeTree) : LabelledTree := { tree, labels := [] }

/-- The node that a label marks. -/
def node? (labelled : LabelledTree) (text : String) : Option Handle :=
  (labelled.labels.find? (·.text == text)).map Label.node

/-- The node that a reference picks. -/
def find (labelled : LabelledTree) : Reference → Except ReferenceFault Handle
  | .handle node =>
      if 0 ≤ node ∧ node < labelled.tree.size then
        .ok node
      else
        .error (.outOfRange node labelled.tree.size)
  | .label text =>
      match labelled.node? text with
      | some node => .ok node
      | none => .error (.unknownLabel text)
  | .met node => .ok node

/-- The labels that carry an expected name, with that name. -/
def expectations (labelled : LabelledTree) : List (String × Handle × String) :=
  labelled.labels.filterMap fun label =>
    label.expected.map fun expected => (label.text, label.node, expected)

end LabelledTree

end BinaryName
