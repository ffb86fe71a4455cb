import BinaryName.Register

/-!
# Tallies

A numbering grows node by node.  A tally holds a growing numbering the other way round, with its
size and a bound on its handles, so that a node beyond the bound is counted without a search.
-/

namespace BinaryName

/-- The indices of the anonymous classes of a scope, in the order of the walk. -/
abbrev Numbering := Register Nat

/-- The numbering with a node counted: its index is one more than the number of nodes before. -/
def Numbering.count (numbering : Numbering) (node : Handle) : Numbering :=
  numbering.put node (numbering.size + 1)

/-- A numbering in the making. -/
structure Tally where
  /-- The counted nodes with their indices, newest first. -/
  newest : List (Handle × Nat)
  /-- The number of counted nodes. -/
  size : Nat
  /-- A bound on the counted handles. -/
  bound : Int
  /-- The size is that of the list. -/
  size_eq : size = newest.length
  /-- No counted handle is beyond the bound. -/
  le_bound : ∀ entry ∈ newest, (entry.1 : Int) ≤ bound

namespace Tally

/-- Nothing has been counted. -/
def empty : Tally := { newest := [], size := 0, bound := 0, size_eq := rfl, le_bound := by simp }

/-- The numbering so far. -/
def numbering (tally : Tally) : Numbering := { entries := tally.newest.reverse }

/-- The tally with a node counted. -/
def count (tally : Tally) (node : Int) : Tally :=
  if beyond : tally.bound < node then
    { newest := (node, tally.size + 1) :: tally.newest
      size := tally.size + 1
      bound := node
      size_eq := by simp [tally.size_eq]
      le_bound := by
        intro entry member
        rcases List.mem_cons.mp member with rfl | older
        · exact Int.le_refl _
        · exact Int.le_trans (tally.le_bound entry older) (Int.le_of_lt beyond) }
  else if tally.newest.any (·.1 == node) then
    { newest := Register.revalue node (tally.size + 1) tally.newest
      size := tally.size
      bound := tally.bound
      size_eq := by simp [Register.revalue, tally.size_eq]
      le_bound := by
        intro entry member
        obtain ⟨older, older_member, rfl⟩ := List.mem_map.mp member
        split
        · exact Int.not_lt.mp beyond
        · exact tally.le_bound older older_member }
  else
    { newest := (node, tally.size + 1) :: tally.newest
      size := tally.size + 1
      bound := tally.bound
      size_eq := by simp [tally.size_eq]
      le_bound := by
        intro entry member
        rcases List.mem_cons.mp member with rfl | older
        · exact Int.not_lt.mp beyond
        · exact tally.le_bound entry older }

@[simp] theorem numbering_empty : empty.numbering = .empty := rfl

@[simp] theorem size_numbering (tally : Tally) : tally.numbering.size = tally.size := by
  simp [numbering, Register.size, tally.size_eq]

theorem mem_nodes_numbering (tally : Tally) (node : Handle) :
    node ∈ tally.numbering.nodes ↔ tally.newest.any (·.1 == node) = true := by
  rw [← Register.any_entries_iff]
  simp [numbering]

/-- Counting in a tally is counting in its numbering. -/
@[simp] theorem numbering_count (tally : Tally) (node : Handle) :
    (tally.count node).numbering = tally.numbering.count node := by
  unfold Numbering.count count
  rw [size_numbering]
  split
  next beyond =>
    have new : node ∉ tally.numbering.nodes := by
      intro met
      obtain ⟨entry, member, same⟩ :=
        List.any_eq_true.mp ((tally.mem_nodes_numbering node).mp met)
      have below := tally.le_bound entry member
      rw [beq_iff_eq.mp same] at below
      exact absurd beyond (Int.not_lt.mpr below)
    rw [Register.put_of_notMem new]
    simp [numbering]
  next =>
    split
    next met =>
      rw [Register.put_of_mem ((tally.mem_nodes_numbering node).mpr met)]
      simp [numbering, Register.revalue]
    next new =>
      rw [Register.put_of_notMem fun met => new ((tally.mem_nodes_numbering node).mp met)]
      simp [numbering]

end Tally

end BinaryName
