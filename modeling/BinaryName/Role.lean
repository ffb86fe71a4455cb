import BinaryName.Tree.Walk

/-!
# Roles

The role of a node depends on its kind and on what surrounds it.  The parent alone makes a function
top-level or a member, any function around it makes it local, so the roles of a function do not
exclude each other.
-/

namespace BinaryName

/-- What a node is among the nodes around it. -/
inductive Role where
  /-- A class directly below a file or package. -/
  | topLevelClass
  /-- A function directly below a file or package. -/
  | topLevelFunction
  /-- A function directly below a class. -/
  | memberFunction
  /-- A function with another function around it. -/
  | localFunction
  deriving DecidableEq, Repr

namespace ScopeTree

/-- The kind of the parent of a node; the root has none. -/
def parentKind (tree : ScopeTree) (node : Handle) : Except Fault (Option Kind) := do
  match ← tree.parent node with
  | none => pure none
  | some parent => some <$> tree.kind parent

/-- The node is of the given kind, and the kind of its parent passes the test. -/
def isPlaced (tree : ScopeTree) (kind : Kind) (below : Kind → Bool) : Test := fun node => do
  if ← tree.hasKind kind node then
    pure ((← tree.parentKind node).any below)
  else
    pure false

/-- The node has a strict ancestor of the given kind. -/
def isInside (tree : ScopeTree) (kind : Kind) : Test := fun node => do
  pure (← tree.nearestAbove (tree.hasKind kind) node).isSome

/-- The node has the role. -/
def plays (tree : ScopeTree) : Role → Test
  | .topLevelClass => tree.isPlaced .klass Kind.isContainer
  | .topLevelFunction => tree.isPlaced .function Kind.isContainer
  | .memberFunction => tree.isPlaced .function (· == .klass)
  | .localFunction => fun node => do
      if ← tree.hasKind .function node then tree.isInside .function node else pure false

/-- The node is a top-level declaration. -/
def isTopLevel (tree : ScopeTree) : Test :=
  .either (tree.plays .topLevelClass) (tree.plays .topLevelFunction)

/-- The node is a function of a file or of a class. -/
def isNonlocal (tree : ScopeTree) : Test :=
  .either (tree.plays .topLevelFunction) (tree.plays .memberFunction)

/-- The node compiles to an anonymous class: it is a lambda or a local function. -/
def isAnonymous (tree : ScopeTree) : Test :=
  .either (tree.hasKind .lambda) (tree.plays .localFunction)

end ScopeTree

/-- A property of nodes that can be asked for. -/
inductive Criterion where
  /-- The node has the role. -/
  | role (wanted : Role)
  /-- The node is a function of a file or of a class. -/
  | nonlocalFunction
  /-- The node compiles to an anonymous class. -/
  | anonymous
  /-- The node is of the kind. -/
  | kind (wanted : Kind)
  /-- The node has the declared name, or has none. -/
  | name (wanted : Option String)
  deriving DecidableEq, Repr

/-- The test for a property. -/
def Criterion.test (tree : ScopeTree) : Criterion → Test
  | .role wanted => tree.plays wanted
  | .nonlocalFunction => tree.isNonlocal
  | .anonymous => tree.isAnonymous
  | .kind wanted => tree.hasKind wanted
  | .name wanted => fun node => (tree.name node).map (· == wanted)

end BinaryName
