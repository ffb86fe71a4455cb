import Mathlib.Data.Set.Card
import Mathlib.Logic.Relation
import BinaryName.Tree.Walk

/-!
# Trees without cycles

Nothing forces the links of a tree to come to an end, but where no record is above itself each step
to a parent leaves fewer records to go to, and where no record is below itself so does each step to
a child.  These numbers take the place of the bounds on the walks.
-/

namespace BinaryName

theorem map_eq_ok_iff {ε α β : Type} {first : Except ε α} {change : α → β} {value : β} :
    change <$> first = .ok value ↔ ∃ met, first = .ok met ∧ change met = value := by
  cases first <;> simp [Functor.map, Except.map]

/-- Nothing is reached from itself. -/
def Loopless {α : Type} (next : α → α → Prop) : Prop :=
  ∀ start, ¬Relation.TransGen next start start

theorem loopless_of_measure {α : Type} {next : α → α → Prop} (measure : α → Nat)
    (falls : ∀ here there, next here there → measure there < measure here) : Loopless next := by
  have reached : ∀ {here there}, Relation.TransGen next here there →
      measure there < measure here := by
    intro here there path
    induction path with
    | single step => exact falls _ _ step
    | tail _ step ih => exact Nat.lt_trans (falls _ _ step) ih
  exact fun start path => Nat.lt_irrefl _ (reached path)

/-- The number of places that are reached from a place. -/
noncomputable def reach {size : Nat} (next : Fin size → Fin size → Prop) (start : Fin size) : Nat :=
  {place | Relation.TransGen next start place}.ncard

section

variable {size : Nat} {next : Fin size → Fin size → Prop} {here there : Fin size}

theorem Loopless.reach_lt (loopless : Loopless next) (step : next here there) :
    reach next there < reach next here := by
  have further : {place | Relation.TransGen next there place} ⊆
      {place | Relation.TransGen next here place} := fun _ path => path.head step
  refine Set.ncard_lt_ncard ⟨further, fun back => ?_⟩
  exact loopless there (back (Relation.TransGen.single step))

theorem Loopless.reach_lt_size (loopless : Loopless next) (start : Fin size) :
    reach next start < size := by
  have missed : {place | Relation.TransGen next start place} ⊂ Set.univ :=
    ⟨Set.subset_univ _, fun all => loopless start (all (Set.mem_univ start))⟩
  calc
    reach next start < (Set.univ : Set (Fin size)).ncard := Set.ncard_lt_ncard missed
    _ = size := by rw [Set.ncard_univ, Nat.card_eq_fintype_card, Fintype.card_fin]

end

namespace ScopeTree

variable {tree : ScopeTree} {node : Handle}

/-- A position is that of a record. -/
theorem position_lt (tree : ScopeTree) (position : Fin tree.size) :
    (position : Nat) < tree.records.size :=
  position.isLt

/-- The record at a position names a handle of the other record as its parent. -/
def NamesParent (tree : ScopeTree) (position other : Fin tree.size) : Prop :=
  (getElem tree.records position (tree.position_lt position)).parent.bind tree.position? =
    some other

/-- The record at a position lists a handle of the other record among its children. -/
def ListsChild (tree : ScopeTree) (position other : Fin tree.size) : Prop :=
  ∃ child ∈ (getElem tree.records position (tree.position_lt position)).children,
    tree.position? child = some other

instance (position other : Fin tree.size) : Decidable (tree.NamesParent position other) :=
  inferInstanceAs (Decidable (_ = _))

instance (position other : Fin tree.size) : Decidable (tree.ListsChild position other) :=
  inferInstanceAs (Decidable (∃ _ ∈ _, _))

/-- No record is above itself, and none is below itself. -/
structure Acyclic (tree : ScopeTree) : Prop where
  parents : Loopless tree.NamesParent
  children : Loopless tree.ListsChild

theorem record_eq_ok_iff {record : Record} :
    tree.record node = .ok record ↔
      ∃ position, tree.position? node = some position ∧ tree.records[position] = record := by
  rw [ScopeTree.record]
  cases tree.position? node <;> simp

/-- How many records the links from a handle lead to, the record of the handle included. -/
noncomputable def height (tree : ScopeTree) (next : Fin tree.size → Fin tree.size → Prop)
    (node : Handle) : Nat :=
  match tree.position? node with
  | some position => reach next position + 1
  | none => 0

theorem height_le_size {next : Fin tree.size → Fin tree.size → Prop} (loopless : Loopless next)
    (node : Handle) : tree.height next node ≤ tree.size := by
  rw [height]
  cases tree.position? node with
  | none => exact Nat.zero_le _
  | some position => exact loopless.reach_lt_size position

theorem height_lt_of_next {next : Fin tree.size → Fin tree.size → Prop} (loopless : Loopless next)
    {position : Fin tree.size} (position_eq : tree.position? node = some position) {other : Handle}
    (step : ∀ place, tree.position? other = some place → next position place) :
    tree.height next other < tree.height next node := by
  rw [height, height, position_eq]
  cases other_eq : tree.position? other with
  | none => exact Nat.succ_pos _
  | some place => exact Nat.succ_lt_succ (loopless.reach_lt (step place other_eq))

theorem height_parent_lt (loopless : Loopless tree.NamesParent) {parent : Handle}
    (parent_eq : tree.parent node = .ok (some parent)) :
    tree.height tree.NamesParent parent < tree.height tree.NamesParent node := by
  obtain ⟨record, record_eq, named⟩ := map_eq_ok_iff.mp parent_eq
  obtain ⟨position, position_eq, rfl⟩ := record_eq_ok_iff.mp record_eq
  apply height_lt_of_next loopless position_eq
  intro place place_eq
  rw [NamesParent, named, Option.bind_some, place_eq]

theorem height_child_lt (loopless : Loopless tree.ListsChild) {listed : List Handle}
    (children_eq : tree.children node = .ok listed) {child : Handle} (member : child ∈ listed) :
    tree.height tree.ListsChild child < tree.height tree.ListsChild node := by
  obtain ⟨record, record_eq, listed_eq⟩ := map_eq_ok_iff.mp children_eq
  obtain ⟨position, position_eq, rfl⟩ := record_eq_ok_iff.mp record_eq
  apply height_lt_of_next loopless position_eq
  intro place place_eq
  exact ⟨child, listed_eq ▸ member, place_eq⟩

/-! ## Climbing -/

/-- A bound beyond the height is never reached. -/
theorem climb_congr (loopless : Loopless tree.NamesParent) {bound other : Nat}
    (enough : tree.height tree.NamesParent node < bound)
    (also : tree.height tree.NamesParent node < other) :
    tree.climb bound node = tree.climb other node := by
  induction bound generalizing node other with
  | zero => simp at enough
  | succ bound ih =>
      obtain ⟨other, rfl⟩ := Nat.exists_eq_succ_of_ne_zero (Nat.ne_of_gt (Nat.zero_lt_of_lt also))
      rw [climb, climb]
      congr 1
      funext _
      cases parent_eq : tree.parent node with
      | error fault => rfl
      | ok named =>
          cases named with
          | none => rfl
          | some parent =>
              have lower := height_parent_lt loopless parent_eq
              exact ih (by omega) (by omega)

/-- A node comes before its strict ancestors. -/
theorem ancestorsAndSelf_eq (loopless : Loopless tree.NamesParent) (node : Handle) :
    tree.ancestorsAndSelf node = .visit node fun _ => tree.ancestors node := by
  rw [ancestorsAndSelf, climb]
  congr 1
  funext _
  cases parent_eq : tree.parent node with
  | error fault => simp only [ancestors, parent_eq]
  | ok named =>
      cases named with
      | none => simp only [ancestors, parent_eq]
      | some parent =>
          simp only [ancestors, parent_eq, ancestorsAndSelf]
          have lower := height_parent_lt loopless parent_eq
          have bounded := height_le_size loopless node
          exact climb_congr loopless (by omega) (by omega)

theorem ancestors_of_root (parent_eq : tree.parent node = .ok none) :
    tree.ancestors node = .stop := by
  simp only [ancestors, parent_eq]

theorem ancestors_of_parent {parent : Handle} (parent_eq : tree.parent node = .ok (some parent)) :
    tree.ancestors node = tree.ancestorsAndSelf parent := by
  simp only [ancestors, parent_eq]

theorem nearestAbove_of_root (test : Test) (parent_eq : tree.parent node = .ok none) :
    tree.nearestAbove test node = .ok none := by
  rw [nearestAbove, ancestors_of_root parent_eq, Walk.findM?]

theorem nearestAbove_of_parent (test : Test) {parent : Handle}
    (parent_eq : tree.parent node = .ok (some parent)) :
    tree.nearestAbove test node = tree.nearestFrom test parent := by
  rw [nearestAbove, ancestors_of_parent parent_eq, nearestFrom]

theorem nearestFrom_of_passes {test : Test} (passes : test node = .ok true) :
    tree.nearestFrom test node = .ok (some node) := by
  rw [nearestFrom, ancestorsAndSelf, climb, Walk.findM?, passes]
  rfl

theorem nearestFrom_eq (loopless : Loopless tree.NamesParent) (node : Handle) (test : Test) :
    tree.nearestFrom test node =
      (do if ← test node then pure (some node) else tree.nearestAbove test node) := by
  rw [nearestFrom, ancestorsAndSelf_eq loopless, Walk.findM?]
  rfl

end ScopeTree

end BinaryName
