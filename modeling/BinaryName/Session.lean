import BinaryName.Cache.Numberings
import BinaryName.Expectation
import BinaryName.Tree.Label

/-!
# Sessions

A session has labelled trees and caches of one type.  Each request is served with one of the caches
and reports what is in that cache afterwards.
-/

namespace BinaryName

/-- What can be asked about a node. -/
inductive Question where
  /-- The binary class name. -/
  | name
  /-- The name and how it came about. -/
  | resolution
  /-- The index of the anonymous class. -/
  | index
  /-- The root of the scope that the node is in. -/
  | scope
  /-- The numbering of the scope that has the node as its root. -/
  | numbering
  deriving DecidableEq, Repr

/-- What is answered to a request. -/
inductive Reply where
  | text (name : String)
  | resolution (resolution : Resolution)
  | names (names : Register String)
  | index (index : Nat)
  | node (node : Handle)
  | numbering (numbering : Numbering)
  | verdict (mismatch : Option Mismatch)
  | truth (truth : Bool)
  deriving DecidableEq, Repr

/-- The inquiry that answers a question. -/
def Question.inquiry (tree : ScopeTree) (node : Handle) : Question → Inquiry Reply
  | name => Reply.text <$> tree.className node
  | resolution => Reply.resolution <$> tree.resolve node
  | index => Reply.index <$> tree.indexOf node
  | scope => do
      let root ← tree.scopeOf node
      pure (Reply.node root)
  | numbering => Reply.numbering <$> Inquiry.numbering node

/-- A node of one of the trees of a session. -/
structure Place where
  /-- The place of the tree. -/
  tree : Nat
  /-- The node. -/
  reference : Reference
  deriving DecidableEq, Repr

/-- What a session can be asked. -/
inductive Request where
  /-- A question about a node. -/
  | about (question : Question) (place : Place)
  /-- Whether a node has the expected name. -/
  | check (place : Place) (expected : String)
  /-- The names of all classes of the tree at a place. -/
  | classNames (tree : Nat)
  /-- Whether two nodes are the same node of the same tree. -/
  | same (place other : Place)
  deriving DecidableEq, Repr

/-- Why a request has no reply. -/
inductive Refusal where
  /-- The session has no such tree. -/
  | noTree (tree : Nat)
  /-- A reference picks no node. -/
  | reference (fault : ReferenceFault)
  /-- The walk or the naming breaks off. -/
  | naming (fault : Fault)
  deriving DecidableEq, Repr

/-- Trees and caches for their numberings. -/
structure Session (σ : Type) where
  /-- The trees. -/
  trees : Array LabelledTree
  /-- The caches; each of them serves all trees. -/
  caches : Array σ
  deriving Repr

/-- What a session reports after a request. -/
structure Report where
  /-- The reply or why there is none. -/
  outcome : Except Refusal Reply
  /-- The number of numberings in the cache. -/
  size : Nat
  /-- Their scopes, by tree and root. -/
  scopes : List Scope
  deriving Repr

namespace Session

variable {σ : Type}

/-- The tree at a place. -/
def tree (session : Session σ) (place : Nat) : Except Refusal LabelledTree :=
  match session.trees[place]? with
  | some labelled => .ok labelled
  | none => .error (.noTree place)

/-- The tree of a place and the node in it. -/
def locate (session : Session σ) (place : Place) : Except Refusal (ScopeTree × Handle) := do
  let labelled ← session.tree place.tree
  match labelled.find place.reference with
  | .ok node => pure (labelled.tree, node)
  | .error fault => throw (.reference fault)

variable [BoundedCache σ Scope Numbering]

/-- The reply to an inquiry about the tree at a place, and the cache after it. -/
def ask (cache : σ) (place : Nat) (tree : ScopeTree) (inquiry : Inquiry Reply) :
    Except Refusal Reply × σ :=
  let (outcome, after) := NumberingCache.run place tree inquiry cache
  (outcome.mapError Refusal.naming, after)

/-- The reply to a request, and the cache after it. -/
def serve (session : Session σ) (cache : σ) :
    Request → Except Refusal Reply × σ
  | .about question place =>
      match session.locate place with
      | .error refusal => (.error refusal, cache)
      | .ok (tree, node) => ask cache place.tree tree (question.inquiry tree node)
  | .check place expected =>
      match session.locate place with
      | .error refusal => (.error refusal, cache)
      | .ok (tree, node) => ask cache place.tree tree (Reply.verdict <$> tree.check node expected)
  | .classNames place =>
      match session.tree place with
      | .error refusal => (.error refusal, cache)
      | .ok labelled => ask cache place labelled.tree (Reply.names <$> labelled.tree.classNames)
  | .same place other =>
      let outcome := do
        let (_, node) ← session.locate place
        let (_, otherNode) ← session.locate other
        pure (Reply.truth (place.tree == other.tree && node == otherNode))
      (outcome, cache)

/-- What is reported of a reply and the cache after it. -/
def report (served : Except Refusal Reply × σ) : Report :=
  { outcome := served.1, size := BoundedCache.size served.2
    scopes := NumberingCache.scopes served.2 }

/-- Serve a request with the cache of the given number, if there is one. -/
def step? (session : Session σ) (number : Nat) (request : Request) :
    Option (Report × Session σ) := do
  let cache ← session.caches[number]?
  let served := session.serve cache request
  pure (report served, { session with caches := session.caches.setIfInBounds number served.2 })

/-- Serve requests in turn, each with the cache of its number, if there are all those caches. -/
def run? (session : Session σ) : List (Nat × Request) → Option (List Report × Session σ)
  | [] => some ([], session)
  | (number, request) :: rest => do
      let (report, after) ← session.step? number request
      let (reports, last) ← after.run? rest
      pure (report :: reports, last)

end Session

end BinaryName
