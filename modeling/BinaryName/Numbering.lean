import BinaryName.Role
import BinaryName.Tally

/-!
# Numberings

The anonymous classes of a scope are numbered in one walk below its root, from 1 on.  A top-level
class is the root for everything inside it.  The top-level functions of a file share the file as
their root, and the walk below a file passes its top-level classes by.
-/

namespace BinaryName

namespace ScopeTree

/-- The walk that numbers the scope of a root. -/
def scopeWalk (tree : ScopeTree) (root : Handle) : Except Fault Walk := do
  if ← tree.hasKind .file root then
    pure (tree.preorder (tree.plays .topLevelClass) root)
  else
    pure (tree.preorder .never root)

/-- The numbering after the anonymous classes among the nodes of a walk have been counted. -/
def countAlong (tree : ScopeTree) (numbering : Numbering) : Walk → Except Fault Numbering
  | .stop => .ok numbering
  | .broken fault => .error fault
  | .visit node rest => do
      if ← tree.isAnonymous node then
        tree.countAlong (numbering.count node) (rest ())
      else
        tree.countAlong numbering (rest ())

/-- The same with a tally of what has been counted. -/
def tallyAlong (tree : ScopeTree) (tally : Tally) : Walk → Except Fault Numbering
  | .stop => .ok tally.numbering
  | .broken fault => .error fault
  | .visit node rest => do
      if ← tree.isAnonymous node then
        tree.tallyAlong (tally.count node) (rest ())
      else
        tree.tallyAlong tally (rest ())

/-- The numbering of the scope of a root.  Any node may serve as the root. -/
def numbering (tree : ScopeTree) (root : Handle) : Except Fault Numbering := do
  tree.tallyAlong .empty (← tree.scopeWalk root)

theorem tallyAlong_eq (tree : ScopeTree) (tally : Tally) (walk : Walk) :
    tree.tallyAlong tally walk = tree.countAlong tally.numbering walk := by
  induction walk generalizing tally with
  | stop => rfl
  | broken fault => rfl
  | visit node rest ih => simp only [tallyAlong, countAlong, ih, Tally.numbering_count]

/-- The numbering of a scope counts along the walk of the scope. -/
theorem numbering_eq (tree : ScopeTree) (root : Handle) :
    tree.numbering root = tree.scopeWalk root >>= tree.countAlong .empty := by
  simp only [numbering, tallyAlong_eq, Tally.numbering_empty]

/-- Break off a naming because of a defect that mentions a node. -/
def refuse {α : Type} (tree : ScopeTree) (node : Handle) (defect : Caption → Defect)
    (mentioned : Handle) : Except Fault α := do
  let caption ← tree.caption mentioned
  throw (.malformed node (defect caption))

/-- The root of the scope that a node is in: the top-level class around it, or the file around its
top-level function. -/
def scopeOf (tree : ScopeTree) (node : Handle) : Except Fault Handle := do
  match ← tree.nearestAbove tree.isTopLevel node with
  | none => tree.refuse node .noTopLevel node
  | some topLevel =>
      if ← tree.hasKind .klass topLevel then
        pure topLevel
      else
        match ← tree.nearestAbove (tree.hasKind .file) topLevel with
        | none => tree.refuse node .topLevelNotInFile topLevel
        | some file => pure file

end ScopeTree

end BinaryName
