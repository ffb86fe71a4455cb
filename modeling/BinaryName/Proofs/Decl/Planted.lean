import BinaryName.Proofs.Decl.Layout

/-!
# Nests in a tree

A nest is planted in a tree when its records are those of the tree from its first handle on.  A tree
that has been laid out has its whole nest planted at the root, and every node of it has a part of
that nest planted at its handle.
-/

namespace BinaryName

theorem ScopeTree.position?_natCast (tree : ScopeTree) {node : Nat} (inside : node < tree.size) :
    tree.position? (node : Int) = some ⟨node, inside⟩ := by
  have within : (0 : Int) ≤ node ∧ (node : Int) < tree.size := by omega
  simp [position?, within]

theorem ScopeTree.record_natCast (tree : ScopeTree) {node : Nat} (inside : node < tree.size) :
    tree.record (node : Int) = .ok tree.records[node] := by
  rw [record, position?_natCast tree inside]
  rfl

theorem ScopeTree.record_of_split {tree : ScopeTree} {before after : List Record} {record : Record}
    (split : tree.records.toList = before ++ record :: after) :
    tree.record (before.length : Int) = .ok record := by
  have inside : before.length < tree.records.size := by
    have length_eq := congrArg List.length split
    simp only [Array.length_toList, List.length_append, List.length_cons] at length_eq
    omega
  rw [tree.record_natCast inside]
  congr 1
  rw [← Array.getElem_toList]
  simp [split]

/-- The record of a head whose children are known. -/
def Head.record (head : Head) (parent : Option Nat) (children : List Handle) : Record :=
  { kind := head.kind, name := head.name, parent := parent.map Int.ofNat, children }

namespace Decl

mutual

/-- The tree has the nest below a parent, with its first handle given. -/
def Planted (tree : ScopeTree) (parent : Option Nat) (start : Nat) : Decl → Prop
  | .declare head children =>
      tree.record (start : Int) = .ok (head.record parent (starts (start + 1) children)) ∧
        (head.name = none → head.kind = .lambda) ∧ PlantedAll tree start (start + 1) children
  | .foreign _ => False

/-- The tree has several nests below a parent, one after the other. -/
def PlantedAll (tree : ScopeTree) (parent start : Nat) : List Decl → Prop
  | [] => True
  | decl :: rest =>
      decl.Planted tree (some parent) start ∧ PlantedAll tree parent (start + decl.count) rest

end

mutual

theorem planted_of_split {tree : ScopeTree} {taken : List String} {parent : Option Nat}
    {before after : List Record} :
    ∀ decl : Decl, problem? taken decl.entries = none →
      tree.records.toList = before ++ decl.records parent before.length ++ after →
      decl.Planted tree parent before.length
  | .declare head children, sound, split => by
      rw [entries, problem?, Option.or_eq_none_iff] at sound
      rw [records, List.append_assoc, List.cons_append] at split
      refine ⟨ScopeTree.record_of_split split, head.named_of_objection? sound.1, ?_⟩
      have below := @plantedAll_of_split tree _ before.length
        (before ++ [head.record parent (starts (before.length + 1) children)]) after children
        sound.2
      rw [List.length_append, List.length_singleton] at below
      exact below (by simpa [Head.record] using split)
  | .foreign sort, sound, _ => by simp [entries, problem?] at sound

theorem plantedAll_of_split {tree : ScopeTree} {taken : List String} {parent : Nat}
    {before after : List Record} :
    ∀ decls : List Decl, problem? taken (entriesAll decls) = none →
      tree.records.toList = before ++ recordsAll parent before.length decls ++ after →
      PlantedAll tree parent before.length decls
  | [], _, _ => trivial
  | decl :: rest, sound, split => by
      rw [entriesAll, problem?_append, Option.or_eq_none_iff] at sound
      rw [recordsAll] at split
      have first : decl.Planted tree (some parent) before.length :=
        planted_of_split decl sound.1 (by simpa using split)
      have others := @plantedAll_of_split tree _ parent
        (before ++ decl.records (some parent) before.length) after rest sound.2
      rw [List.length_append, length_records _ _ decl sound.1] at others
      exact ⟨first, others (by simpa using split)⟩

end

/-- The records of the tree are those of the nest. -/
structure Fills (decl : Decl) (tree : ScopeTree) : Prop where
  planted : decl.Planted tree none 0
  size_eq : tree.size = decl.count

theorem fills_of_layout {decl : Decl} {built : LabelledTree} (laid : decl.layout = .ok built) :
    decl.Fills built.tree := by
  obtain ⟨sound, records_eq, -⟩ := (decl.layout_eq_ok_iff built).mp laid
  constructor
  · exact @planted_of_split built.tree [] none [] [] decl sound (by simp [records_eq])
  · rw [ScopeTree.size, records_eq, List.size_toArray, length_records none 0 decl sound]

/-! ## Parts of a nest -/

theorem Planted.record_eq {tree : ScopeTree} {parent : Option Nat} {start : Nat} {head : Head}
    {children : List Decl} (planted : (declare head children).Planted tree parent start) :
    tree.record (start : Int) = .ok (head.record parent (starts (start + 1) children)) :=
  planted.1

theorem Planted.lt_size {tree : ScopeTree} {parent : Option Nat} {start : Nat} {decl : Decl}
    (planted : decl.Planted tree parent start) : start < tree.size := by
  cases decl with
  | foreign sort => exact planted.elim
  | declare head children =>
      rcases Nat.lt_or_ge start tree.size with inside | outside
      · exact inside
      · have beyond : ¬(0 ≤ (start : Int) ∧ (start : Int) < tree.size) := by omega
        have positive : ¬(-tree.size ≤ (start : Int) ∧ (start : Int) < 0) := by omega
        have record_eq := planted.record_eq
        rw [ScopeTree.record, ScopeTree.position?, dif_neg beyond, dif_neg positive] at record_eq
        simp at record_eq

theorem Planted.parent_eq {tree : ScopeTree} {parent : Option Nat} {start : Nat} {decl : Decl}
    (planted : decl.Planted tree parent start) :
    tree.parent (start : Int) = .ok (parent.map Int.ofNat) := by
  cases decl with
  | declare head children => rw [ScopeTree.parent, planted.record_eq]; rfl
  | foreign sort => exact planted.elim

theorem Planted.children_eq {tree : ScopeTree} {parent : Option Nat} {start : Nat} {head : Head}
    {children : List Decl} (planted : (declare head children).Planted tree parent start) :
    tree.children (start : Int) = .ok (starts (start + 1) children) := by
  rw [ScopeTree.children, planted.record_eq]
  rfl

theorem Planted.kind_eq {tree : ScopeTree} {parent : Option Nat} {start : Nat} {head : Head}
    {children : List Decl} (planted : (declare head children).Planted tree parent start) :
    tree.kind (start : Int) = .ok head.kind := by
  rw [ScopeTree.kind, planted.record_eq]
  rfl

theorem Planted.name_eq {tree : ScopeTree} {parent : Option Nat} {start : Nat} {head : Head}
    {children : List Decl} (planted : (declare head children).Planted tree parent start) :
    tree.name (start : Int) = .ok head.name := by
  rw [ScopeTree.name, planted.record_eq]
  rfl

theorem Planted.below {tree : ScopeTree} {parent : Option Nat} {start : Nat} {head : Head}
    {children : List Decl} (planted : (declare head children).Planted tree parent start) :
    PlantedAll tree start (start + 1) children :=
  planted.2.2

theorem PlantedAll.first {tree : ScopeTree} {parent start : Nat} {decl : Decl} {rest : List Decl}
    (planted : PlantedAll tree parent start (decl :: rest)) :
    decl.Planted tree (some parent) start :=
  planted.1

theorem PlantedAll.rest {tree : ScopeTree} {parent start : Nat} {decl : Decl} {rest : List Decl}
    (planted : PlantedAll tree parent start (decl :: rest)) :
    PlantedAll tree parent (start + decl.count) rest :=
  planted.2

theorem PlantedAll.front {tree : ScopeTree} {parent start : Nat} {before after : List Decl}
    (planted : PlantedAll tree parent start (before ++ after)) :
    PlantedAll tree parent start before := by
  induction before generalizing start with
  | nil => trivial
  | cons decl rest ih => exact ⟨planted.first, ih planted.rest⟩

theorem PlantedAll.of_append {tree : ScopeTree} {parent start : Nat} {before after : List Decl}
    (planted : PlantedAll tree parent start (before ++ after)) :
    PlantedAll tree parent (start + countAll before) after := by
  induction before generalizing start with
  | nil => exact planted
  | cons decl rest ih =>
      rw [countAll, ← Nat.add_assoc]
      exact ih planted.rest

theorem count_pos (decl : Decl) : 0 < decl.count := by
  cases decl <;> simp [count]

mutual

/-- Every handle of a planted nest has a part of the nest planted at it. -/
theorem exists_planted {tree : ScopeTree} {parent : Option Nat} {start node : Nat} :
    ∀ decl : Decl, decl.Planted tree parent start → start ≤ node → node < start + decl.count →
      ∃ (nest : Decl) (above : Option Nat), nest.Planted tree above node ∧
        node + nest.count ≤ start + decl.count
  | .declare head children, planted, le_node, node_lt => by
      rw [count] at node_lt ⊢
      by_cases first : node = start
      · subst first
        exact ⟨.declare head children, parent, planted, Nat.le_refl _⟩
      · obtain ⟨nest, above, nest_planted, bound⟩ :=
          @exists_plantedAll tree start (start + 1) node children planted.below (by omega)
          (by omega)
        exact ⟨nest, above, nest_planted, by omega⟩
  | .foreign _, planted, _, _ => planted.elim

theorem exists_plantedAll {tree : ScopeTree} {parent start node : Nat} :
    ∀ decls : List Decl, PlantedAll tree parent start decls → start ≤ node →
      node < start + countAll decls →
      ∃ (nest : Decl) (above : Option Nat), nest.Planted tree above node ∧
        node + nest.count ≤ start + countAll decls
  | [], _, le_node, node_lt => by
      rw [countAll] at node_lt
      omega
  | decl :: rest, planted, le_node, node_lt => by
      rw [countAll] at node_lt ⊢
      by_cases inFirst : node < start + decl.count
      · obtain ⟨nest, above, nest_planted, bound⟩ :=
          exists_planted decl planted.first le_node inFirst
        exact ⟨nest, above, nest_planted, by omega⟩
      · obtain ⟨nest, above, nest_planted, bound⟩ :=
          @exists_plantedAll tree parent _ node rest planted.rest (by omega) (by omega)
        exact ⟨nest, above, nest_planted, by omega⟩

end

/-- The node names a parent before it, and the parent lists the node among its children. -/
def Listed (tree : ScopeTree) (start node : Nat) : Prop :=
  ∃ above : Nat, start ≤ above ∧ above < node ∧ tree.parent (node : Int) = .ok (some above) ∧
    ∃ children, tree.children (above : Int) = .ok children ∧ (node : Int) ∈ children

mutual

/-- All handles of a planted nest but the first are listed. -/
theorem listed_of_planted {tree : ScopeTree} {parent : Option Nat} {start node : Nat} :
    ∀ decl : Decl, decl.Planted tree parent start → start < node → node < start + decl.count →
      Listed tree start node
  | .declare head children, planted, lt_node, node_lt => by
      rw [count] at node_lt
      rcases @listed_of_plantedAll tree start (start + 1) node children planted.below (by omega)
        (by omega) with
        ⟨parent_eq, member⟩ | ⟨above, le_above, above_lt, parent_eq, listed⟩
      · exact ⟨start, Nat.le_refl _, lt_node, parent_eq, _, planted.children_eq, member⟩
      · exact ⟨above, by omega, above_lt, parent_eq, listed⟩
  | .foreign _, planted, _, _ => planted.elim

theorem listed_of_plantedAll {tree : ScopeTree} {parent start node : Nat} :
    ∀ decls : List Decl, PlantedAll tree parent start decls → start ≤ node →
      node < start + countAll decls →
      tree.parent (node : Int) = .ok (some (parent : Int)) ∧ (node : Int) ∈ starts start decls ∨
        Listed tree start node
  | [], _, le_node, node_lt => by
      rw [countAll] at node_lt
      omega
  | decl :: rest, planted, le_node, node_lt => by
      rw [countAll] at node_lt
      rw [starts]
      by_cases first : node = start
      · subst first
        exact Or.inl ⟨planted.first.parent_eq, List.mem_cons_self⟩
      · by_cases inFirst : node < start + decl.count
        · exact Or.inr (listed_of_planted decl planted.first (by omega) inFirst)
        · rcases @listed_of_plantedAll tree parent _ node rest planted.rest (by omega)
            (by omega) with
            ⟨parent_eq, member⟩ | ⟨above, le_above, above_lt, parent_eq, listed⟩
          · exact Or.inl ⟨parent_eq, List.mem_cons_of_mem _ member⟩
          · exact Or.inr ⟨above, by omega, above_lt, parent_eq, listed⟩

end

namespace Fills

variable {whole : Decl} {tree : ScopeTree} {node : Nat}

theorem exists_planted_at (fills : whole.Fills tree) (inside : node < tree.size) :
    ∃ (nest : Decl) (above : Option Nat), nest.Planted tree above node ∧
      node + nest.count ≤ tree.size := by
  have size_eq := fills.size_eq
  obtain ⟨nest, above, planted, bound⟩ :=
    exists_planted whole fills.planted (Nat.zero_le node) (by omega)
  exact ⟨nest, above, planted, by omega⟩

/-- Every node is that of a declaration. -/
theorem exists_declared_at (fills : whole.Fills tree) (inside : node < tree.size) :
    ∃ (head : Head) (children : List Decl) (above : Option Nat),
      (declare head children).Planted tree above node ∧
        node + 1 + countAll children ≤ tree.size := by
  obtain ⟨nest, above, planted, bound⟩ := fills.exists_planted_at inside
  cases nest with
  | foreign sort => exact planted.elim
  | declare head children =>
      rw [count] at bound
      exact ⟨head, children, above, planted, by omega⟩

theorem listed (fills : whole.Fills tree) (positive : 0 < node) (inside : node < tree.size) :
    Listed tree 0 node := by
  have size_eq := fills.size_eq
  exact listed_of_planted whole fills.planted positive (by omega)

end Fills

end Decl

end BinaryName
