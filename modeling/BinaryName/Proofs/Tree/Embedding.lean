import BinaryName.Proofs.Tree.Lineage

/-!
# Trees in other trees

One tree is embedded in another if each of its nodes has an image of the same kind and name, and the
parent of the image is the image of the parent.  Nothing is asked of the children, so the other tree
may have more nodes anywhere.  A search upwards from an image comes to the image of what it comes to
from the node.
-/

namespace BinaryName

namespace ScopeTree

/-- The image of a node is a node of the same kind and name, below the image of the parent. -/
structure Mirrored (move : Handle → Handle) (tree other : ScopeTree) (node : Nat) : Prop where
  image : ∃ image : Nat, move node = image ∧ image < other.size
  kind_eq : other.kind (move node) = tree.kind node
  name_eq : other.name (move node) = tree.name node
  parent_eq : other.parent (move node) = (tree.parent node).map (Option.map move)

/-- Every node of the one tree has an image in the other. -/
def Embeds (move : Handle → Handle) (tree other : ScopeTree) : Prop :=
  ∀ node : Nat, node < tree.size → Mirrored move tree other node

variable {move : Handle → Handle} {tree other : ScopeTree} {node : Nat}

theorem Mirrored.parent_of_root (mirrored : Mirrored move tree other node)
    (root_eq : tree.parent (node : Int) = .ok none) : other.parent (move node) = .ok none := by
  rw [mirrored.parent_eq, root_eq]
  rfl

theorem Mirrored.parent_of_parent (mirrored : Mirrored move tree other node) {parent : Handle}
    (parent_eq : tree.parent (node : Int) = .ok (some parent)) :
    other.parent (move node) = .ok (some (move parent)) := by
  rw [mirrored.parent_eq, parent_eq]
  rfl

namespace Embeds

/-- A node and its image have the same kinds above them. -/
theorem lineage_eq (embeds : Embeds move tree other) (ordered : tree.Ordered)
    (also : other.Ordered) (inside : node < tree.size) :
    other.lineage (move node) = tree.lineage node := by
  induction node using Nat.strongRecOn with
  | ind node ih =>
      obtain ⟨image, image_eq, image_lt⟩ := (embeds node inside).image
      have same_kind : other.records[image].kind = tree.records[node].kind := by
        have kind_eq := (embeds node inside).kind_eq
        rw [image_eq, kind_natCast other image_lt, kind_natCast tree inside] at kind_eq
        exact Except.ok.inj kind_eq
      rcases lineage_cases ordered inside with
        ⟨root_eq, line⟩ | ⟨parent, parent_lt, parent_eq, line⟩
      · have image_root := (embeds node inside).parent_of_root root_eq
        rw [image_eq] at image_root ⊢
        rw [lineage_of_root also image_lt image_root, line, same_kind]
      · have image_parent := (embeds node inside).parent_of_parent parent_eq
        rw [image_eq] at image_parent ⊢
        rw [lineage_of_parent also image_lt image_parent, line, same_kind,
          ih parent parent_lt (by omega)]

theorem test_eq (embeds : Embeds move tree other) (ordered : tree.Ordered) (also : other.Ordered)
    {test image_test : Test} {verdict : List Kind → Bool} (judges : tree.Judges test verdict)
    (image_judges : other.Judges image_test verdict) (inside : node < tree.size) :
    image_test (move node) = test node := by
  obtain ⟨image, image_eq, image_lt⟩ := (embeds node inside).image
  have line := embeds.lineage_eq ordered also inside
  rw [image_eq] at line ⊢
  rw [image_judges image image_lt, line, judges node inside]

/-- The search for the nearest ancestor that passes a test goes the same way from the image. -/
theorem nearestAbove_eq (embeds : Embeds move tree other) (ordered : tree.Ordered)
    (also : other.Ordered) {test image_test : Test} {verdict : List Kind → Bool}
    (judges : tree.Judges test verdict) (image_judges : other.Judges image_test verdict)
    (inside : node < tree.size) :
    other.nearestAbove image_test (move node) =
      (tree.nearestAbove test node).map (Option.map move) := by
  induction node using Nat.strongRecOn with
  | ind node ih =>
      rcases ordered node inside with root_eq | ⟨parent, parent_lt, parent_eq⟩
      · rw [nearestAbove_of_root _ ((embeds node inside).parent_of_root root_eq),
          nearestAbove_of_root _ root_eq]
        rfl
      · have parent_inside : parent < tree.size := by omega
        obtain ⟨image, image_eq, image_lt⟩ := (embeds parent parent_inside).image
        have line := embeds.lineage_eq ordered also parent_inside
        have further := ih parent parent_lt parent_inside
        rw [nearestAbove_of_parent _ ((embeds node inside).parent_of_parent parent_eq),
          nearestAbove_of_parent _ parent_eq]
        rw [image_eq] at line further ⊢
        cases passes : verdict (tree.lineage parent) with
        | true =>
            rw [judges.nearestFrom_of_passes ordered parent_inside passes,
              image_judges.nearestFrom_of_passes also image_lt (line ▸ passes)]
            simp [Except.map, image_eq]
        | false =>
            rw [judges.nearestFrom_of_fails ordered parent_inside passes,
              image_judges.nearestFrom_of_fails also image_lt (line ▸ passes), further]

theorem nearestAbove_of_found (embeds : Embeds move tree other) (ordered : tree.Ordered)
    (also : other.Ordered) {test image_test : Test} {verdict : List Kind → Bool}
    (judges : tree.Judges test verdict) (image_judges : other.Judges image_test verdict)
    (inside : node < tree.size) {found : Handle}
    (nearest_eq : tree.nearestAbove test (node : Int) = .ok (some found)) :
    other.nearestAbove image_test (move node) = .ok (some (move found)) := by
  rw [embeds.nearestAbove_eq ordered also judges image_judges inside, nearest_eq]
  rfl

end Embeds

end ScopeTree

end BinaryName
