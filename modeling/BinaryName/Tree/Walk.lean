import BinaryName.Tree.Basic

/-!
# Walks

A walk visits nodes one after the other.  It comes to a stop, or it breaks at a node that it has
visited but cannot leave.  The rest of a walk is made when it is followed, so no record is read
before its turn.  `ancestors` goes up along the parents, `preorder` goes down along the children
with a stack.  Both are bounded by the size of the tree: a longer walk has met a record inside
itself, and such a walk has no end.
-/

namespace BinaryName

/-- The nodes that are visited in turn, and how the visits end. -/
inductive Walk where
  /-- Every node has been visited. -/
  | stop
  /-- The next node cannot be found. -/
  | broken (fault : Fault)
  /-- A node is visited, then the rest. -/
  | visit (node : Handle) (rest : Unit → Walk)

/-- A test on nodes.  It fails where it has to read a record that is not there. -/
abbrev Test := Handle → Except Fault Bool

namespace Test

/-- No node passes. -/
def never : Test := fun _ => .ok false

/-- One of two tests passes.  The second is made only where the first does not. -/
def either (first second : Test) : Test := fun node => do
  if ← first node then pure true else second node

end Test

namespace Walk

/-- The visited nodes in order, whether or not the walk breaks after them. -/
def visited : Walk → List Handle
  | .stop | .broken _ => []
  | .visit node rest => node :: (rest ()).visited

/-- The fault that a walk ends with. -/
def fault? : Walk → Option Fault
  | .stop => none
  | .broken fault => some fault
  | .visit _ rest => (rest ()).fault?

/-- The nodes met before, newest first, and then those of a walk that does not break. -/
def collect (met : List Handle) : Walk → Except Fault (List Handle)
  | .stop => .ok met.reverse
  | .broken fault => .error fault
  | .visit node rest => (rest ()).collect (node :: met)

/-- All nodes of a walk that does not break. -/
def nodes (walk : Walk) : Except Fault (List Handle) := walk.collect []

/-- The first node that passes the test.  The walk is followed no further than that. -/
def findM? (test : Test) : Walk → Except Fault (Option Handle)
  | .stop => .ok none
  | .broken fault => .error fault
  | .visit node rest => do
      if ← test node then pure (some node) else (rest ()).findM? test

/-- The nodes before the first that fails the test. -/
def takeWhileM (test : Test) : Walk → Except Fault (List Handle)
  | .stop => .ok []
  | .broken fault => .error fault
  | .visit node rest => do
      if ← test node then pure (node :: (← (rest ()).takeWhileM test)) else pure []

theorem collect_eq (met : List Handle) (walk : Walk) :
    walk.collect met =
      match walk.fault? with
      | none => .ok (met.reverse ++ walk.visited)
      | some fault => .error fault := by
  induction walk generalizing met with
  | stop => simp [collect, fault?, visited]
  | broken fault => rfl
  | visit node rest ih => simp [collect, fault?, visited, ih]

/-- A walk has all its nodes unless it breaks. -/
theorem nodes_eq (walk : Walk) :
    walk.nodes =
      match walk.fault? with
      | none => .ok walk.visited
      | some fault => .error fault :=
  walk.collect_eq []

end Walk

namespace ScopeTree

/-- The walk from a node up to the root, with a bound on the number of visits. -/
def climb (tree : ScopeTree) : Nat → Handle → Walk
  | 0, _ => .broken .endless
  | bound + 1, node =>
      .visit node fun _ =>
        match tree.parent node with
        | .error fault => .broken fault
        | .ok none => .stop
        | .ok (some parent) => tree.climb bound parent

/-- The node itself and its ancestors, nearest first. -/
def ancestorsAndSelf (tree : ScopeTree) (node : Handle) : Walk :=
  tree.climb (tree.size + 1) node

/-- The strict ancestors of a node, nearest first. -/
def ancestors (tree : ScopeTree) (node : Handle) : Walk :=
  match tree.parent node with
  | .error fault => .broken fault
  | .ok none => .stop
  | .ok (some parent) => tree.ancestorsAndSelf parent

/-- The nearest node that passes the test, from the node itself upwards. -/
def nearestFrom (tree : ScopeTree) (test : Test) (node : Handle) : Except Fault (Option Handle) :=
  (tree.ancestorsAndSelf node).findM? test

/-- The nearest strict ancestor that passes the test. -/
def nearestAbove (tree : ScopeTree) (test : Test) (node : Handle) : Except Fault (Option Handle) :=
  (tree.ancestors node).findM? test

/-- The depth-first walk of a stack of nodes, with a bound on the number of visits.  A visited node
is replaced by its successors. -/
def descend (successors : Handle → Except Fault (List Handle)) : Nat → List Handle → Walk
  | _, [] => .stop
  | 0, _ :: _ => .broken .endless
  | bound + 1, node :: stack =>
      .visit node fun _ =>
        match successors node with
        | .error fault => .broken fault
        | .ok next => descend successors bound (next ++ stack)

/-- The nodes of a list that are not to be skipped. -/
def unskipped (skip : Test) : List Handle → Except Fault (List Handle)
  | [] => .ok []
  | node :: rest => do
      let skipped ← skip node
      let kept ← unskipped skip rest
      pure (if skipped then kept else node :: kept)

/-- The largest number of children of a record. -/
def breadth (tree : ScopeTree) : Nat :=
  tree.records.foldl (fun widest record => max widest record.children.length) 0

/-- No more nodes can be visited below a node, unless the children form a cycle: a path has at most
`size` records before a handle without one, and each branches at most `breadth` times. -/
def visitBound (tree : ScopeTree) : Nat := Nat.pow (tree.breadth + 1) tree.size

/-- A node and its descendants, depth first in source order.  A descendant that is to be skipped is
left out with everything below it; the start is never skipped. -/
def preorder (tree : ScopeTree) (skip : Test) (start : Handle) : Walk :=
  descend (fun node => do unskipped skip (← tree.children node)) tree.visitBound [start]

/-- The whole tree from its root, depth first in source order. -/
def iteration (tree : ScopeTree) : Walk := descend tree.children tree.visitBound [root]

theorem unskipped_never (nodes : List Handle) : unskipped Test.never nodes = .ok nodes := by
  induction nodes with
  | nil => rfl
  | cons node rest ih => simp [unskipped, Test.never, ih, bind, Except.bind, pure, Except.pure]

/-- The walk of the whole tree is the one that starts at the root and skips nothing. -/
theorem iteration_eq_preorder (tree : ScopeTree) :
    tree.iteration = tree.preorder .never root := by
  have keep : (fun node => tree.children node >>= unskipped .never) = tree.children := by
    funext node
    cases children_eq : tree.children node with
    | error fault => rfl
    | ok children => simpa [bind, Except.bind] using unskipped_never children
  exact congrArg (fun next => descend next tree.visitBound [root]) keep.symm

end ScopeTree

end BinaryName
