import BinaryName.Proofs.Tree.Descent

/-!
# Scopes

The numbering of a scope is the list of the anonymous classes that the walk below its root keeps,
each with its place in the list.  A node is kept if its parent is and it is not skipped itself, so a
scope misses a node only where a top-level class lies between the node and a root that is a file.
-/

namespace BinaryName

theorem split_of_getElem? {α : Type} {list : List α} {place : Nat} {element : α}
    (found : list[place]? = some element) :
    list = list.take place ++ element :: list.drop (place + 1) ∧
      (list.take place).length = place := by
  obtain ⟨inside, rfl⟩ := List.getElem?_eq_some_iff.mp found
  constructor
  · rw [← List.drop_eq_getElem_cons inside, List.take_append_drop]
  · exact List.length_take_of_le (Nat.le_of_lt inside)

namespace Numbering

/-- The nodes of a list with their places, from 1 on. -/
def ofList (nodes : List Handle) : Numbering := { entries := nodes.zipIdx 1 }

theorem nodes_ofList (nodes : List Handle) : (ofList nodes).nodes = nodes := by
  simp [Register.nodes, ofList]

theorem count_ofList {nodes : List Handle} {node : Handle} (new : node ∉ nodes) :
    (ofList nodes).count node = ofList (nodes ++ [node]) := by
  rw [count, Register.put_of_notMem (by rwa [nodes_ofList])]
  simp [ofList, Register.size, List.zipIdx_append, Nat.add_comm]

theorem find?_zipIdx {node : Handle} {before after : List Handle} (new : node ∉ before)
    (first : Nat) :
    ((before ++ node :: after).zipIdx first).find? (·.1 == node) =
      some (node, first + before.length) := by
  induction before generalizing first with
  | nil => simp
  | cons other before ih =>
      rw [List.mem_cons, not_or] at new
      have differs : (other == node) = false := beq_false_of_ne (Ne.symm new.1)
      simp [differs, ih new.2, Nat.add_comm, Nat.add_left_comm]

theorem get?_ofList {node : Handle} {before : List Handle} (new : node ∉ before)
    (after : List Handle) :
    (ofList (before ++ node :: after)).get? node = some (before.length + 1) := by
  simp [Register.get?, ofList, find?_zipIdx new, Nat.add_comm]

theorem get?_ofList_of_getElem? {nodes : List Handle} (distinct : nodes.Nodup) {place : Nat}
    {node : Handle} (found : nodes[place]? = some node) :
    (ofList nodes).get? node = some (place + 1) := by
  obtain ⟨split, length_eq⟩ := split_of_getElem? found
  rw [split, List.nodup_append] at distinct
  have new : node ∉ nodes.take place := fun member =>
    distinct.2.2 node member node List.mem_cons_self rfl
  rw [split, get?_ofList new, length_eq]

theorem isSome_get?_ofList (nodes : List Handle) (node : Handle) :
    ((ofList nodes).get? node).isSome = true ↔ node ∈ nodes := by
  rw [Register.get?, Option.isSome_map, List.find?_isSome]
  constructor
  · rintro ⟨entry, member, same⟩
    have met : entry.1 ∈ (ofList nodes).nodes := List.mem_map_of_mem member
    rwa [nodes_ofList, eq_of_beq same] at met
  · intro member
    rw [← nodes_ofList nodes] at member
    obtain ⟨entry, entry_member, rfl⟩ := List.mem_map.mp member
    exact ⟨entry, entry_member, beq_self_eq_true _⟩

end Numbering

namespace ScopeTree

variable {tree : ScopeTree}

/-- The node compiles to an anonymous class. -/
def numbers (tree : ScopeTree) (node : Handle) : Bool := Lineage.isAnonymous (tree.lineage node)

/-- The walk that numbers the scope of the root passes the node by. -/
def passesBy (tree : ScopeTree) (root node : Handle) : Bool :=
  (tree.lineage root).head? == some .file && Role.topLevelClass.fits (tree.lineage node)

theorem passesBy_of_not_topLevelClass {node : Handle} (root : Handle)
    (other : Role.topLevelClass.fits (tree.lineage node) = false) :
    tree.passesBy root node = false := by
  rw [passesBy, other, Bool.and_false]

theorem passesBy_of_not_topLevel {node : Handle} (root : Handle)
    (other : Lineage.isTopLevel (tree.lineage node) = false) : tree.passesBy root node = false := by
  rw [Lineage.isTopLevel, Bool.or_eq_false_iff] at other
  exact passesBy_of_not_topLevelClass root other.1

theorem decides_numbers (ordered : tree.Ordered) : tree.Decides tree.isAnonymous tree.numbers :=
  judges_isAnonymous ordered

/-- Nodes that have not been met are counted in turn. -/
theorem countAlong_after (ordered : tree.Ordered) (met nodes : List Handle)
    (distinct : (met ++ nodes).Nodup)
    (inside : ∀ node ∈ nodes, ∃ place : Nat, node = place ∧ place < tree.size) :
    tree.countAlong (.ofList met) (Walk.stop.after nodes) =
      .ok (.ofList (met ++ nodes.filter tree.numbers)) := by
  induction nodes generalizing met with
  | nil => simp [Walk.after, countAlong]
  | cons node rest ih =>
      obtain ⟨place, rfl, place_lt⟩ := inside node List.mem_cons_self
      have rest_inside : ∀ other ∈ rest, ∃ place : Nat, other = place ∧ place < tree.size :=
        fun other member => inside other (List.mem_cons_of_mem _ member)
      rw [Walk.after, countAlong, decides_numbers ordered place place_lt, List.filter_cons]
      cases counted : tree.numbers place with
      | true =>
          have new : (place : Int) ∉ met := fun member =>
            (List.nodup_append.mp distinct).2.2 _ member _ List.mem_cons_self rfl
          have rest_distinct : ((met ++ [(place : Int)]) ++ rest).Nodup := by simpa using distinct
          simpa [bind, Except.bind, Numbering.count_ofList new] using
            ih (met ++ [(place : Int)]) rest_distinct rest_inside
      | false =>
          have rest_distinct : (met ++ rest).Nodup :=
            distinct.sublist ((List.sublist_cons_self _ _).append_left met)
          simpa [bind, Except.bind] using ih met rest_distinct rest_inside

end ScopeTree

namespace Decl

variable {tree : ScopeTree} {skip : Handle → Bool}

/-! ## What a scope keeps -/

theorem mem_kept_first {parent : Option Nat} {start : Nat} {nest : Decl}
    (planted : nest.Planted tree parent start) : (start : Int) ∈ nest.kept skip start := by
  cases nest with
  | declare head children => exact List.mem_cons_self
  | foreign sort => exact planted.elim

mutual

theorem parent_of_mem_kept {parent : Option Nat} {start : Nat} {node : Handle} :
    ∀ nest : Decl, nest.Planted tree parent start → node ∈ nest.kept skip start →
      node = (start : Int) ∨ skip node = false ∧
        ∃ above ∈ nest.kept skip start, tree.parent node = .ok (some above)
  | .declare head children, planted, member => by
      rw [kept] at member ⊢
      rcases List.mem_cons.mp member with first | below
      · exact Or.inl first
      · obtain ⟨unskipped, parent_eq | ⟨above, above_member, parent_eq⟩⟩ :=
          parent_of_mem_keptAll children planted.below below
        · exact Or.inr ⟨unskipped, start, List.mem_cons_self, parent_eq⟩
        · exact Or.inr ⟨unskipped, above, List.mem_cons_of_mem _ above_member, parent_eq⟩
  | .foreign _, planted, _ => planted.elim

theorem parent_of_mem_keptAll {parent start : Nat} {node : Handle} :
    ∀ nests : List Decl, PlantedAll tree parent start nests → node ∈ keptAll skip start nests →
      skip node = false ∧ (tree.parent node = .ok (some (parent : Int)) ∨
        ∃ above ∈ keptAll skip start nests, tree.parent node = .ok (some above))
  | [], _, member => by simp [keptAll] at member
  | nest :: rest, planted, member => by
      rw [keptAll] at member ⊢
      rcases List.mem_append.mp member with inFirst | later
      · cases skipped : skip start with
        | true => simp [skipped] at inFirst
        | false =>
            simp only [skipped, Bool.false_eq_true, if_false] at inFirst ⊢
            rcases parent_of_mem_kept nest planted.first inFirst with
              rfl | ⟨unskipped, above, above_member, parent_eq⟩
            · exact ⟨skipped, Or.inl planted.first.parent_eq⟩
            · exact ⟨unskipped, Or.inr ⟨above, List.mem_append_left _ above_member, parent_eq⟩⟩
      · obtain ⟨unskipped, parent_eq | ⟨above, above_member, parent_eq⟩⟩ :=
          parent_of_mem_keptAll rest planted.rest later
        · exact ⟨unskipped, Or.inl parent_eq⟩
        · exact ⟨unskipped, Or.inr ⟨above, List.mem_append_right _ above_member, parent_eq⟩⟩

end

theorem mem_keptAll_of_mem_starts {parent start : Nat} {node : Handle} {nests : List Decl}
    (planted : PlantedAll tree parent start nests) (member : node ∈ starts start nests)
    (unskipped : skip node = false) : node ∈ keptAll skip start nests := by
  induction nests generalizing start with
  | nil => simp [starts] at member
  | cons nest rest ih =>
      rw [starts] at member
      rw [keptAll]
      rcases List.mem_cons.mp member with rfl | later
      · apply List.mem_append_left
        have here : skip (start : Int) = false := unskipped
        rw [here]
        exact mem_kept_first planted.first
      · exact List.mem_append_right _ (ih planted.rest later)

mutual

theorem mem_kept_of_child {parent : Option Nat} {start : Nat} {node above : Handle}
    {listed : List Handle} (children_eq : tree.children above = .ok listed)
    (member : node ∈ listed) (unskipped : skip node = false) :
    ∀ nest : Decl, nest.Planted tree parent start → above ∈ nest.kept skip start →
      node ∈ nest.kept skip start
  | .declare head children, planted, above_member => by
      rw [kept] at above_member ⊢
      apply List.mem_cons_of_mem
      rcases List.mem_cons.mp above_member with rfl | below
      · have listed_eq : starts (start + 1) children = listed :=
          Except.ok.inj (planted.children_eq.symm.trans children_eq)
        exact mem_keptAll_of_mem_starts planted.below (by rwa [listed_eq]) unskipped
      · exact mem_keptAll_of_child children_eq member unskipped children planted.below below
  | .foreign _, planted, _ => planted.elim

theorem mem_keptAll_of_child {parent start : Nat} {node above : Handle} {listed : List Handle}
    (children_eq : tree.children above = .ok listed) (member : node ∈ listed)
    (unskipped : skip node = false) :
    ∀ nests : List Decl, PlantedAll tree parent start nests → above ∈ keptAll skip start nests →
      node ∈ keptAll skip start nests
  | [], _, above_member => by simp [keptAll] at above_member
  | nest :: rest, planted, above_member => by
      rw [keptAll] at above_member ⊢
      rcases List.mem_append.mp above_member with inFirst | later
      · apply List.mem_append_left
        cases skipped : skip start with
        | true => simp [skipped] at inFirst
        | false =>
            simp only [skipped, Bool.false_eq_true, if_false] at inFirst ⊢
            exact mem_kept_of_child children_eq member unskipped nest planted.first inFirst
      · exact List.mem_append_right _
          (mem_keptAll_of_child children_eq member unskipped rest planted.rest later)

end

namespace Fills

variable {whole nest : Decl} {parent : Option Nat} {root : Nat}

/-- A node below the root of a scope is kept if its parent is and it is not skipped. -/
theorem mem_kept_iff (fills : whole.Fills tree) (planted : nest.Planted tree parent root)
    {node above : Nat} (inside : node < tree.size)
    (parent_eq : tree.parent (node : Int) = .ok (some (above : Int))) (other : node ≠ root) :
    (node : Int) ∈ nest.kept skip root ↔
      (above : Int) ∈ nest.kept skip root ∧ skip node = false := by
  constructor
  · intro member
    rcases parent_of_mem_kept nest planted member with first | ⟨unskipped, parent', kept', eq'⟩
    · exact absurd (Int.ofNat.inj first) other
    · have same : (above : Int) = parent' := by
        rw [parent_eq] at eq'
        exact Option.some.inj (Except.ok.inj eq')
      exact ⟨by rwa [same], unskipped⟩
  · rintro ⟨above_member, unskipped⟩
    have positive : 0 < node := by
      by_cases first : node = 0
      · subst first
        have root_eq := fills.planted.parent_eq
        rw [parent_eq] at root_eq
        simp at root_eq
      · omega
    obtain ⟨named, -, -, named_eq, listed, children_eq, member⟩ :=
      fills.listed positive inside
    have same : (above : Int) = named := by
      rw [parent_eq] at named_eq
      exact Option.some.inj (Except.ok.inj named_eq)
    rw [← same] at children_eq
    exact mem_kept_of_child children_eq member unskipped nest planted above_member

/-- The walk of a scope visits what it keeps, and stops. -/
theorem scopeWalk_eq (fills : whole.Fills tree) (planted : nest.Planted tree parent root)
    (within : root + nest.count ≤ tree.size) :
    tree.scopeWalk (root : Int) =
      .ok (Walk.stop.after (nest.kept (tree.passesBy root) root)) := by
  have root_lt : root < tree.size := by have := nest.count_pos; omega
  rw [ScopeTree.scopeWalk, ScopeTree.hasKind_eq fills.ordered root_lt]
  cases file : (tree.lineage root).head? == some .file with
  | true =>
      have decides : tree.Decides (tree.plays .topLevelClass) (tree.passesBy root) := by
        intro node node_lt
        rw [ScopeTree.judges_plays fills.ordered .topLevelClass node node_lt, ScopeTree.passesBy,
          file, Bool.true_and]
      rw [← fills.preorder_eq decides planted within]
      rfl
  | false =>
      have decides : tree.Decides .never (tree.passesBy root) := by
        intro node node_lt
        rw [ScopeTree.passesBy, file, Bool.false_and]
        rfl
      rw [← fills.preorder_eq decides planted within]
      rfl

theorem exists_place_of_kept {skip : Handle → Bool} (within : root + nest.count ≤ tree.size) :
    ∀ node ∈ nest.kept skip root, ∃ place : Nat, node = place ∧ place < tree.size := by
  intro node member
  obtain ⟨place, rfl, -, lt⟩ := mem_handlesFrom.mp ((kept_sublist skip root nest).mem member)
  exact ⟨place, rfl, by omega⟩

/-- What holds at the root of a scope, and goes down to children that are not skipped, holds at
everything that is kept. -/
theorem kept_induction {skip : Handle → Bool} (fills : whole.Fills tree)
    (planted : nest.Planted tree parent root) (within : root + nest.count ≤ tree.size)
    {motive : Nat → Prop} (here : motive root)
    (below : ∀ node above : Nat, node < tree.size → above < node →
      tree.parent (node : Int) = .ok (some (above : Int)) → skip node = false → motive above →
      motive node) {node : Nat} (member : (node : Int) ∈ nest.kept skip root) : motive node := by
  induction node using Nat.strongRecOn with
  | ind node ih =>
      obtain ⟨place, place_eq, inside⟩ := exists_place_of_kept within _ member
      obtain rfl : node = place := Int.ofNat_inj.mp place_eq
      rcases parent_of_mem_kept nest planted member with
        first | ⟨unskipped, above, above_member, parent_eq⟩
      · rwa [Int.ofNat_inj.mp first]
      · rcases fills.ordered node inside with root_eq | ⟨named, named_lt, named_eq⟩
        · simp [root_eq] at parent_eq
        · obtain rfl : (named : Int) = above :=
            Option.some.inj (Except.ok.inj (named_eq.symm.trans parent_eq))
          exact below node named inside named_lt named_eq unskipped (ih named named_lt above_member)

/-- The numbering of a scope holds what the walk keeps and numbers. -/
theorem numbering_eq (fills : whole.Fills tree) (planted : nest.Planted tree parent root)
    (within : root + nest.count ≤ tree.size) :
    tree.numbering (root : Int) =
      .ok (.ofList ((nest.kept (tree.passesBy root) root).filter tree.numbers)) := by
  rw [ScopeTree.numbering_eq, fills.scopeWalk_eq planted within]
  exact ScopeTree.countAlong_after fills.ordered [] _
    (by simpa using nodup_kept (tree.passesBy root) root nest) (exists_place_of_kept within)

end Fills

end Decl

end BinaryName
