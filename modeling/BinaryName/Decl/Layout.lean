import BinaryName.Decl.Basic
import BinaryName.Tree.Label

/-!
# Laying out a nest as a tree

The entries of a nest get the handles 0, 1, 2, … in preorder, in one loop over a stack of the nests
that are still to be entered.  Each entry is checked when it gets its handle, so the first entry in
preorder that is no good decides the fault.  Nothing asks whether the kinds fit into each other.
-/

namespace BinaryName

/-- The part of a labelled tree that has been laid out so far. -/
structure Draft where
  /-- The records, by handle. -/
  records : Array Record
  /-- The labels met so far. -/
  labels : Array Label
  deriving DecidableEq, Repr

namespace Draft

/-- Nothing has been laid out. -/
def empty : Draft := { records := #[], labels := #[] }

/-- Why a head cannot be entered next: it needs a name and has none, or its label is taken. -/
def objection? (draft : Draft) (head : Head) : Option TreeFault :=
  if head.name = none ∧ head.kind ≠ .lambda then
    match head.kind.title? with
    | some title => some (.nameless title)
    | none => some .untitledKind
  else
    head.label.bind fun label =>
      if draft.labels.any (·.text == label) then some (.duplicateLabel label) else none

/-- The draft with one more record, which is listed as the last child of its parent. -/
def enter (draft : Draft) (head : Head) (parent : Option Nat) : Draft :=
  let node := draft.records.size
  let listed := match parent with
    | none => draft.records
    | some parent => draft.records.modify parent fun record =>
        { record with children := record.children ++ [Int.ofNat node] }
  let record : Record :=
    { kind := head.kind, name := head.name, parent := parent.map Int.ofNat, children := [] }
  let labels := match head.label with
    | none => draft.labels
    | some text => draft.labels.push { text, node := Int.ofNat node, expected := head.expected }
  { records := listed.push record, labels }

/-- The draft after the nests of a stack have been entered, the topmost first.  Each of them comes
with the node that it is put below.  A nest that has been entered makes place on the stack for the
nests in it, so that they come next. -/
def enterAll (draft : Draft) : List (Decl × Option Nat) → Except TreeFault Draft
  | [] => .ok draft
  | (.foreign sort, _) :: _ => .error (.notADeclaration sort)
  | (.declare head children, parent) :: stack =>
      match draft.objection? head with
      | some fault => .error fault
      | none =>
          let node := draft.records.size
          (draft.enter head parent).enterAll (children.map (·, some node) ++ stack)
termination_by stack => Decl.countAll (stack.map Prod.fst)
decreasing_by
  simp [Decl.countAll_append, Decl.countAll, Decl.count, Function.comp_def]

end Draft

namespace Decl

/-- The labelled tree of a nest. -/
def layout (decl : Decl) : Except TreeFault LabelledTree := do
  let draft ← Draft.empty.enterAll [(decl, none)]
  let tree ← ScopeTree.ofRecords draft.records
  pure { tree, labels := draft.labels.toList }

end Decl

end BinaryName
