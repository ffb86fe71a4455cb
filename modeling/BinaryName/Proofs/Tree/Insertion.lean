import BinaryName.Proofs.Decl.Insertion
import BinaryName.Proofs.Tree.Embedding

/-!
# Trees with a lambda more

The tree of a nest is embedded in that of the nest with one more lambda.  Only the handles from the
new node on change, and each of them by one.
-/

namespace BinaryName

/-- The handle of a node after one more node has been put at the place. -/
def raised (place : Nat) (node : Int) : Int := if node < place then node else node + 1

theorem raised_of_lt {place node : Nat} (before : node < place) : raised place node = node := by
  rw [raised, if_pos (by omega)]

theorem raised_of_le {place node : Nat} (after : place ≤ node) :
    raised place node = ((node + 1 : Nat) : Int) := by
  rw [raised, if_neg (by omega), Int.natCast_succ]

theorem raised_inj {place : Nat} {node other : Int}
    (same : raised place node = raised place other) :
    node = other := by
  unfold raised at same
  split at same <;> split at same <;> omega

namespace Decl

open ScopeTree

variable {move : Handle → Handle} {tree other : ScopeTree}

/-- A declaration that is planted in two trees is mirrored if what is in it is. -/
theorem mirrored_declare {head : Head} {children image_children : List Decl}
    {parent image_parent : Option Nat} {start image : Nat}
    (planted : (declare head children).Planted tree parent start)
    (image_planted : (declare head image_children).Planted other image_parent image)
    (start_eq : move start = image)
    (parents : (parent.map Int.ofNat).map move = image_parent.map Int.ofNat)
    (below : ∀ offset < countAll children, Mirrored move tree other (start + 1 + offset)) :
    ∀ offset < (declare head children).count, Mirrored move tree other (start + offset) := by
  intro offset offset_lt
  rw [count] at offset_lt
  cases offset with
  | zero =>
      constructor
      · exact ⟨image, start_eq, image_planted.lt_size⟩
      · rw [Nat.add_zero, start_eq, planted.kind_eq, image_planted.kind_eq]
      · rw [Nat.add_zero, start_eq, planted.name_eq, image_planted.name_eq]
      · rw [Nat.add_zero, start_eq, planted.parent_eq, image_planted.parent_eq, ← parents]
        rfl
  | succ offset =>
      rw [Nat.add_comm offset 1, ← Nat.add_assoc]
      exact below offset (by omega)

mutual

/-- A nest that is planted in two trees, at handles and at their images, is mirrored. -/
theorem mirrored_of_planted {parent image_parent : Option Nat} {start image : Nat}
    (parents : (parent.map Int.ofNat).map move = image_parent.map Int.ofNat) :
    ∀ decl : Decl, decl.Planted tree parent start → decl.Planted other image_parent image →
      (∀ offset < decl.count, move (start + offset : Nat) = (image + offset : Nat)) →
      ∀ offset < decl.count, Mirrored move tree other (start + offset)
  | .declare head children, planted, image_planted, moves => by
      rw [count] at moves
      have start_eq : move start = image := moves 0 (by omega)
      have children_move : ∀ offset < countAll children,
          move (start + 1 + offset : Nat) = (image + 1 + offset : Nat) := by
        intro offset offset_lt
        simpa only [Nat.add_assoc, Nat.add_comm 1] using moves (offset + 1) (by omega)
      exact mirrored_declare planted image_planted start_eq parents
        (mirrored_of_plantedAll start_eq children planted.below image_planted.below children_move)
  | .foreign _, planted, _, _ => planted.elim

theorem mirrored_of_plantedAll {parent image_parent start image : Nat}
    (parent_eq : move parent = image_parent) :
    ∀ decls : List Decl, PlantedAll tree parent start decls →
      PlantedAll other image_parent image decls →
      (∀ offset < countAll decls, move (start + offset : Nat) = (image + offset : Nat)) →
      ∀ offset < countAll decls, Mirrored move tree other (start + offset)
  | [], _, _, _, offset, offset_lt => by simp [countAll] at offset_lt
  | decl :: rest, planted, image_planted, moves, offset, offset_lt => by
      rw [countAll] at moves offset_lt
      by_cases inFirst : offset < decl.count
      · have parents : ((some parent).map Int.ofNat).map move = (some image_parent).map Int.ofNat :=
          congrArg some parent_eq
        exact mirrored_of_planted parents decl planted.first image_planted.first
          (fun inner inner_lt => moves inner (by omega)) offset inFirst
      · obtain ⟨inner, rfl⟩ := Nat.exists_eq_add_of_le (Nat.le_of_not_lt inFirst)
        have rest_moves : ∀ offset < countAll rest,
            move (start + decl.count + offset : Nat) = (image + decl.count + offset : Nat) := by
          intro offset offset_lt
          simpa only [Nat.add_assoc] using moves (decl.count + offset) (by omega)
        rw [← Nat.add_assoc]
        exact mirrored_of_plantedAll parent_eq rest planted.rest image_planted.rest rest_moves inner
          (by omega)

end

variable {place : Nat}

/-- Where some nests take one more handle than before, those in front of them stay where they are
and those after them move up by one. -/
theorem mirrored_around {parent start : Nat} {before changed after : List Decl} (middle : List Decl)
    (planted : PlantedAll tree parent start (before ++ (middle ++ after)))
    (image_planted : PlantedAll other parent start (before ++ (changed ++ after)))
    (one_more : countAll changed = countAll middle + 1) (parent_lt : parent < place)
    (from_le : start + countAll before ≤ place)
    (le_to : place ≤ start + countAll before + countAll middle)
    (mirrored : ∀ offset < countAll middle,
      Mirrored (raised place) tree other (start + countAll before + offset)) :
    ∀ offset < countAll (before ++ (middle ++ after)),
      Mirrored (raised place) tree other (start + offset) := by
  have parent_eq : raised place parent = parent := raised_of_lt parent_lt
  have planted_after := planted.of_append.of_append
  have image_after := image_planted.of_append.of_append
  rw [one_more, ← Nat.add_assoc] at image_after
  intro offset offset_lt
  rw [countAll_append, countAll_append] at offset_lt
  by_cases inBefore : offset < countAll before
  · exact mirrored_of_plantedAll parent_eq before planted.front image_planted.front
      (fun _ lt => raised_of_lt (by omega)) offset inBefore
  · obtain ⟨inner, rfl⟩ := Nat.exists_eq_add_of_le (Nat.le_of_not_lt inBefore)
    rw [← Nat.add_assoc]
    by_cases inMiddle : inner < countAll middle
    · exact mirrored inner inMiddle
    · obtain ⟨last, rfl⟩ := Nat.exists_eq_add_of_le (Nat.le_of_not_lt inMiddle)
      rw [← Nat.add_assoc]
      refine mirrored_of_plantedAll parent_eq after planted_after image_after ?_ last (by omega)
      intro offset _
      rw [raised_of_le (by omega), Nat.add_right_comm]

theorem map_raised {parent : Option Nat} (parent_lt : ∀ above ∈ parent, above < place) :
    (parent.map Int.ofNat).map (raised place) = parent.map Int.ofNat := by
  cases parent with
  | none => rfl
  | some above => exact congrArg some (raised_of_lt (parent_lt above rfl))

/-- A nest is mirrored in the nest with one more lambda. -/
theorem LambdaAdded.mirrored {nest edited : Decl} (added : LambdaAdded place nest edited)
    {parent : Option Nat} {start : Nat} (planted : nest.Planted tree parent start)
    (image_planted : edited.Planted other parent start)
    (parent_lt : ∀ above ∈ parent, above < start) :
    ∀ offset < nest.count, Mirrored (raised (start + place)) tree other (start + offset) := by
  induction added generalizing parent start with
  | @here head lambda before after _ _ _ =>
      refine mirrored_declare planted image_planted (raised_of_lt (by omega))
        (map_raised fun above member => Nat.lt_add_right _ (parent_lt above member)) ?_
      have one_more : countAll [.declare lambda []] = countAll [] + 1 := rfl
      refine mirrored_around [] planted.below image_planted.below one_more (by omega) (by omega)
        ?_ ?_
      · rw [countAll]
        omega
      · simp [countAll]
  | @inside head place nest edited before after added ih =>
      refine mirrored_declare planted image_planted (raised_of_lt (by omega))
        (map_raised fun above member => Nat.lt_add_right _ (parent_lt above member)) ?_
      have place_le := added.place_le
      have one_more : countAll [edited] = countAll [nest] + 1 := by
        simp [countAll, added.count_eq]
      have place_eq :
          start + (countAll before + 1 + place) = start + 1 + countAll before + place := by
        omega
      rw [place_eq]
      refine mirrored_around [nest] planted.below image_planted.below one_more (by omega) (by omega)
        ?_ ?_
      · simp only [countAll]
        omega
      · have mirrored := ih planted.below.of_append.first image_planted.below.of_append.first
          (by simp; omega)
        simpa [countAll] using mirrored

theorem LambdaAdded.kind_eq {nest edited : Decl} (added : LambdaAdded place nest edited)
    {parent : Option Nat} {start : Nat} (planted : edited.Planted other parent start) :
    other.kind ((start + place : Nat) : Int) = .ok .lambda := by
  induction added generalizing parent start with
  | here before after _ isLambda _ =>
      have kind_eq := planted.below.of_append.first.kind_eq
      rwa [isLambda, Nat.add_right_comm, Nat.add_assoc] at kind_eq
  | @inside head place _ _ before after _ ih =>
      have place_eq :
          start + (countAll before + 1 + place) = start + 1 + countAll before + place := by
        omega
      rw [place_eq]
      exact ih planted.below.of_append.first

/-! ## Whole trees -/

variable {nest edited : Decl}

/-- The tree of a nest is embedded in that of the nest with one more lambda. -/
theorem LambdaAdded.embeds (added : LambdaAdded place nest edited) (fills : nest.Fills tree)
    (edited_fills : edited.Fills other) : Embeds (raised place) tree other := by
  intro node inside
  have node_lt : node < nest.count := by rw [← fills.size_eq]; exact inside
  simpa using added.mirrored fills.planted edited_fills.planted (by simp) node node_lt

theorem LambdaAdded.size_eq (added : LambdaAdded place nest edited) (fills : nest.Fills tree)
    (edited_fills : edited.Fills other) : other.size = tree.size + 1 := by
  rw [edited_fills.size_eq, added.count_eq, fills.size_eq]

theorem LambdaAdded.place_le_size (added : LambdaAdded place nest edited)
    (fills : nest.Fills tree) :
    place ≤ tree.size := by
  rw [fills.size_eq]
  exact added.place_le

theorem LambdaAdded.kind_place (added : LambdaAdded place nest edited)
    (edited_fills : edited.Fills other) : other.kind (place : Int) = .ok .lambda := by
  simpa using added.kind_eq edited_fills.planted

end Decl

end BinaryName
