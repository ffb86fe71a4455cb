import BinaryName.Fault
import BinaryName.Kind

/-!
# Scope trees

A scope tree is a sequence of records.  A record names its parent and its children by handle, and
nothing forces the two to agree: a child may be listed twice, by several records or by none.  A
handle is looked at only when its record is read, and two handles of one record are two nodes.
-/

namespace BinaryName

/-- One record of a scope tree. -/
structure Record where
  /-- What the node declares. -/
  kind : Kind
  /-- The declared name. -/
  name : Option String
  /-- The handle of the parent; the root has none. -/
  parent : Option Handle
  /-- The handles of the children, in source order. -/
  children : List Handle
  deriving DecidableEq, Repr

/-- A nonempty sequence of records whose first record is a root. -/
structure ScopeTree where
  /-- The records, by handle. -/
  records : Array Record
  /-- There is a record. -/
  size_pos : 0 < records.size
  /-- The first record has no parent. -/
  parent_root : records[0].parent = none
  deriving DecidableEq, Repr

namespace ScopeTree

/-- The tree of the given records. -/
def ofRecords (records : Array Record) : Except TreeFault ScopeTree :=
  if size_pos : 0 < records.size then
    if parent_root : records[0].parent = none then
      .ok { records, size_pos, parent_root }
    else
      .error .rootHasParent
  else
    .error .noRecords

/-- The number of records. -/
abbrev size (tree : ScopeTree) : Nat := tree.records.size

/-- The handle of the first record. -/
def root : Handle := 0

/-- All handles from the first record to the last. -/
def handles (tree : ScopeTree) : List Handle := (List.range tree.size).map Int.ofNat

/-- The position of the record that a handle reads. -/
def position? (tree : ScopeTree) (handle : Int) : Option (Fin tree.size) :=
  if inside : 0 ≤ handle ∧ handle < tree.size then
    some ⟨handle.toNat, by omega⟩
  else if fromEnd : -tree.size ≤ handle ∧ handle < 0 then
    some ⟨(handle + tree.size).toNat, by omega⟩
  else
    none

/-- The fault of a handle without a record.  Positions are signed numbers of 64 bits. -/
def misread (handle : Int) : Fault :=
  if -0x8000000000000000 ≤ handle ∧ handle < 0x8000000000000000 then .outOfRange else .oversized

/-- The record that a handle reads. -/
def record (tree : ScopeTree) (handle : Handle) : Except Fault Record :=
  match tree.position? handle with
  | some position => .ok tree.records[position]
  | none => .error (misread handle)

/-- The kind of a node. -/
def kind (tree : ScopeTree) (node : Handle) : Except Fault Kind :=
  (tree.record node).map Record.kind

/-- The declared name of a node. -/
def name (tree : ScopeTree) (node : Handle) : Except Fault (Option String) :=
  (tree.record node).map Record.name

/-- The parent of a node; its own record is not read. -/
def parent (tree : ScopeTree) (node : Handle) : Except Fault (Option Handle) :=
  (tree.record node).map Record.parent

/-- The children of a node; their records are not read. -/
def children (tree : ScopeTree) (node : Handle) : Except Fault (List Handle) :=
  (tree.record node).map Record.children

/-- The node is of the given kind. -/
def hasKind (tree : ScopeTree) (kind : Kind) (node : Handle) : Except Fault Bool :=
  (tree.kind node).map (· == kind)

/-- The title of a node's kind. -/
def title (tree : ScopeTree) (node : Handle) : Except Fault String := do
  match (← tree.kind node).title? with
  | some title => pure title
  | none => throw .untitledKind

/-- How messages mention a node. -/
def caption (tree : ScopeTree) (node : Handle) : Except Fault Caption := do
  let title ← tree.title node
  let name ← tree.name node
  pure { title, name }

end ScopeTree

end BinaryName
