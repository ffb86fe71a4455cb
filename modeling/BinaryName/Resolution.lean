import BinaryName.Inquiry

/-!
# Resolution of binary class names

A class is named by its package and the classes around it, a top-level function by its package and
its file, a member function like its class.  A lambda or local function extends the name of the
nearest class or non-local function around it by its index.  The order of the checks in each rule
decides which fault is met first.
-/

namespace BinaryName

/-- The rule that gives a name. -/
inductive NamingRule where
  | topLevelClass
  | topLevelFunction
  | nestedClass
  | memberFunction
  | anonymous
  deriving DecidableEq, Repr

/-- The word for a rule. -/
def NamingRule.word : NamingRule → String
  | topLevelClass => "top_level_class"
  | topLevelFunction => "top_level_function"
  | nestedClass => "nested_class"
  | memberFunction => "member_function"
  | anonymous => "anonymous"

/-- A binary class name and how it came about. -/
structure Resolution where
  /-- The name, with `/` after each part of the package and `$` between the other parts. -/
  name : String
  /-- The rule that gave the name. -/
  rule : NamingRule
  /-- The index of an anonymous class. -/
  index : Option Nat
  /-- The node whose name this one extends or repeats. -/
  base : Option Handle
  deriving DecidableEq, Repr

/-- A package name as the start of a binary name. -/
def packagePath (name : String) : String :=
  name.map (fun char => if char = '.' then '/' else char) ++ "/"

/-- A file name as the name of the class that holds the functions of the file. -/
def fileClass (name : String) : String :=
  name.map fun char => if char = '.' ∨ char = '$' then '_' else char

namespace ScopeTree

/-- The declared name of a node that must have one. -/
def properName (tree : ScopeTree) (node : Handle) : Except Fault String := do
  match ← tree.name node with
  | some name => pure name
  | none => throw (.malformed node (.nameless (← tree.title node)))

/-- The parent of a node that must have one. -/
def holder (tree : ScopeTree) (node : Handle) : Except Fault Handle := do
  match ← tree.parent node with
  | some parent => pure parent
  | none => tree.refuse node .noParent node

/-- The path of the nearest package around a node; empty where there is none. -/
def packageAround (tree : ScopeTree) (node : Handle) : Except Fault String := do
  match ← tree.nearestAbove (tree.hasKind .package) node with
  | none => pure ""
  | some package => packagePath <$> tree.properName package

/-- The class that holds the functions of the nearest file around a node. -/
def fileClassAround (tree : ScopeTree) (node : Handle) : Except Fault String := do
  match ← tree.nearestAbove (tree.hasKind .file) node with
  | none => tree.refuse node .notInFile node
  | some file => fileClass <$> tree.properName file

/-- The classes from a class outwards, up to the first node that is no class. -/
def classChain (tree : ScopeTree) (node : Handle) : Except Fault (List Handle) :=
  (tree.ancestorsAndSelf node).takeWhileM (tree.hasKind .klass)

/-- The declared names of a chain of classes, innermost first, joined from the outermost on. -/
def chainName (tree : ScopeTree) : List Handle → Except Fault String
  | [] => .ok ""
  | [outermost] => tree.properName outermost
  | inner :: outer => do
      let path ← tree.chainName outer
      let name ← tree.properName inner
      pure (path ++ "$" ++ name)

/-- The node is one whose name an anonymous class extends. -/
def isBase (tree : ScopeTree) : Test := .either (tree.hasKind .klass) tree.isNonlocal

/-- The index of the anonymous class of a node. -/
def indexOf (tree : ScopeTree) (node : Handle) : Inquiry Nat := do
  if ← tree.isAnonymous node then
    let root ← tree.scopeOf node
    let numbering ← Inquiry.numbering root
    match numbering.get? node with
    | some index => pure index
    | none => tree.refuse node .unreachable node
  else
    let caption ← tree.caption node
    .fail (.misfit node (.notAnonymous caption))

end ScopeTree

namespace Resolution

/-- The resolution of a class.  A node that is only spelled like a class is in no chain of classes,
and so there is no outermost one. -/
def ofClass (tree : ScopeTree) (node : Handle) : Except Fault Resolution := do
  let chain ← tree.classChain node
  let some outermost := chain.getLast? | throw .emptyChain
  let container ← tree.holder outermost
  if (← tree.kind container).isContainer then
    let path ← tree.packageAround outermost
    let name ← tree.chainName chain
    let base := chain[1]?
    let rule := if base.isSome then NamingRule.nestedClass else .topLevelClass
    pure { name := path ++ name, rule, index := none, base }
  else
    let caption ← tree.caption outermost
    tree.refuse node (.insideCode caption) container

/-- The resolution of a lambda or local function, given how to resolve what is around it. -/
def ofAnonymous (tree : ScopeTree) (around : Handle → Inquiry Resolution) (node : Handle) :
    Inquiry Resolution := do
  match ← tree.nearestAbove tree.isBase node with
  | none => tree.refuse node .noBase node
  | some base =>
      let index ← tree.indexOf node
      let outer ← around base
      pure
        { name := outer.name ++ "$" ++ toString index, rule := .anonymous, index := some index,
          base := some base }

/-- The resolution of a function, given how to resolve what is around it. -/
def ofFunction (tree : ScopeTree) (around : Handle → Inquiry Resolution) (node : Handle) :
    Inquiry Resolution := do
  let parent ← tree.holder node
  if ← tree.plays .topLevelFunction node then
    let path ← tree.packageAround node
    let name ← tree.fileClassAround node
    pure { name := path ++ name, rule := .topLevelFunction, index := none, base := none }
  else if ← tree.plays .localFunction node then
    ofAnonymous tree around node
  else if ← tree.plays .memberFunction node then
    let outer ← around parent
    pure { name := outer.name, rule := .memberFunction, index := none, base := some parent }
  else
    let caption ← tree.caption node
    tree.refuse node (.noRole caption) parent

/-- The resolution of a node, given how to resolve what is around it.  The spelling of its kind
decides which rule is tried. -/
def ofNode (tree : ScopeTree) (around : Handle → Inquiry Resolution) (node : Handle) :
    Inquiry Resolution := do
  match (← tree.kind node).spelled with
  | .klass => ofClass tree node
  | .function => ofFunction tree around node
  | .lambda => ofAnonymous tree around node
  | .file | .package =>
      let caption ← tree.caption node
      .fail (.misfit node (.noClass caption))
  | .unknown tag => .fail (.misfit node (.unknownKind tag))

/-- The resolution of a node in a bounded number of rounds, each for what is around the node of the
round before. -/
def within (tree : ScopeTree) : Nat → Handle → Inquiry Resolution
  | 0, _ => .fail .endless
  | rounds + 1, node => ofNode tree (within tree rounds) node

end Resolution

namespace ScopeTree

/-- The resolution of a node.  Three rounds are enough: what is around an anonymous class is a class
or a non-local function, and what is around a member function is a class. -/
def resolve (tree : ScopeTree) (node : Handle) : Inquiry Resolution :=
  Resolution.within tree 3 node

/-- The binary class name of a node. -/
def className (tree : ScopeTree) (node : Handle) : Inquiry String :=
  Resolution.name <$> tree.resolve node

/-- The names after the nodes of a walk have been named.  Files and packages are passed by. -/
def nameAlong (tree : ScopeTree) (names : Register String) : Walk → Inquiry (Register String)
  | .stop => .answer names
  | .broken fault => .fail fault
  | .visit node rest => do
      if (← tree.kind node).isContainer then
        tree.nameAlong names (rest ())
      else
        let name ← tree.className node
        tree.nameAlong (names.put node name) (rest ())

/-- The binary class names of all classes, functions and lambdas of a tree, in preorder. -/
def classNames (tree : ScopeTree) : Inquiry (Register String) :=
  tree.nameAlong .empty tree.iteration

end ScopeTree

end BinaryName
