import BinaryName.Cache.Lru
import BinaryName.Inquiry

/-!
# Caches of numberings

Inquiries about any number of trees can be answered from one cache of numberings, of whatever type.
The trees are told apart by their places in a sequence.
-/

namespace BinaryName

/-- The scope of a root in one of several trees. -/
structure Scope where
  /-- The place of the tree. -/
  tree : Nat
  /-- The root of the scope. -/
  root : Handle
  deriving DecidableEq, Repr

/-- Scopes are listed by tree, then by root. -/
def Scope.precedes (left right : Scope) : Bool :=
  left.tree < right.tree || left.tree == right.tree && left.root ≤ right.root

namespace NumberingCache

variable {σ : Type} [BoundedCache σ Scope Numbering]

/-- The numbering of a scope, from the cache or by a walk.  A walk that fails stores nothing, and
neither does a numbering that finds no room. -/
def fetch (cache : σ) (place : Nat) (tree : ScopeTree) (root : Handle) :
    Except Fault Numbering × σ :=
  let scope : Scope := { tree := place, root }
  match BoundedCache.get cache scope with
  | (some known, after) => (.ok known, after)
  | (none, after) =>
      match tree.numbering root with
      | .error fault => (.error fault, after)
      | .ok made =>
          match BoundedCache.store? after scope made with
          | none => (.error .noRoom, after)
          | some stored => (.ok made, stored)

/-- The outcome of an inquiry about the tree at a place, and the cache after it. -/
def run {α : Type} (place : Nat) (tree : ScopeTree) : Inquiry α → σ → Except Fault α × σ
  | .answer value, cache => (.ok value, cache)
  | .fail fault, cache => (.error fault, cache)
  | .ask root next, cache =>
      match fetch cache place tree root with
      | (.ok numbering, after) => run place tree (next numbering) after
      | (.error fault, after) => (.error fault, after)

/-- The scopes in the cache, by tree and root. -/
def scopes (cache : σ) : List Scope := (BoundedCache.keys cache).mergeSort Scope.precedes

end NumberingCache

/-- The numberings of the scopes that have been asked for most recently. -/
abbrev NumberingCache := LruCache Scope Numbering

/-- An empty cache of the usual capacity. -/
def NumberingCache.standard : NumberingCache := .empty 128

/-- The outcome of an inquiry about a single tree, with a cache of its own. -/
def Inquiry.outcome {α : Type} (inquiry : Inquiry α) (tree : ScopeTree) : Except Fault α :=
  (NumberingCache.run 0 tree inquiry NumberingCache.standard).1

end BinaryName
