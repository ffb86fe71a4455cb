import BinaryName.Decl.Basic

/-!
# Outlines

An outline is a table of entries in which an entry names its children by their places, all of them
after its own.  Several entries may share a child, and one entry may name a child twice.  Unfolding
an outline puts a copy of the child at every such place.
-/

namespace BinaryName

/-- One row of an outline. -/
inductive Entry where
  /-- A declaration with the places of the declarations in it, in source order. -/
  | declaration (head : Head) (children : List Nat)
  /-- A value that is no declaration. -/
  | foreign (sort : ValueSort)
  deriving DecidableEq, Repr

namespace Outline

/-- The nest at an entry whose place is given, when the nests of the entries after it are known.
There is none if a child does not come later. -/
def nest? (place : Nat) (later : List (Option Decl)) : Entry → Option Decl
  | .foreign sort => some (.foreign sort)
  | .declaration head children => do
      let nested ← children.mapM fun child =>
        if place < child then later[child - place - 1]?.join else none
      pure (.declare head nested)

/-- The nests at all entries of a table whose first entry has the given place. -/
def nestsFrom (place : Nat) : List Entry → List (Option Decl)
  | [] => []
  | entry :: rest =>
      let later := nestsFrom (place + 1) rest
      nest? place later entry :: later

/-- The nest at the first entry.  Entries that it does not reach do not count. -/
def toDecl? (outline : List Entry) : Option Decl :=
  (nestsFrom 0 outline).head?.join

end Outline

end BinaryName
