import BinaryName.Proofs.Tree.Lineage

/-!
# Ancestors

The ancestors of a node are what the walk upwards visits.  They are nodes of the tree before the
node itself, what is above an ancestor is an ancestor again, and every search upwards ends at one of
them.
-/

namespace BinaryName

theorem Walk.mem_visited_of_findM? {walk : Walk} {test : Test} {node : Handle}
    (found : walk.findM? test = .ok (some node)) : node ∈ walk.visited ∧ test node = .ok true := by
  induction walk with
  | stop => simp [findM?] at found
  | broken fault => simp [findM?] at found
  | visit here rest ih =>
      rw [findM?] at found
      obtain ⟨passes, passes_eq, found⟩ := bind_eq_ok_iff.mp found
      cases passes with
      | true =>
          obtain rfl : here = node := by simpa [pure, Except.pure] using found
          exact ⟨List.mem_cons_self, passes_eq⟩
      | false =>
          obtain ⟨member, passed⟩ := ih () (by simpa using found)
          exact ⟨List.mem_cons_of_mem _ member, passed⟩

theorem Walk.mem_visited_of_takeWhileM {walk : Walk} {test : Test} {nodes : List Handle}
    (taken : walk.takeWhileM test = .ok nodes) :
    ∀ node ∈ nodes, node ∈ walk.visited ∧ test node = .ok true := by
  induction walk generalizing nodes with
  | stop =>
      obtain rfl : [] = nodes := Except.ok.inj taken
      simp
  | broken fault => simp [takeWhileM] at taken
  | visit here rest ih =>
      rw [takeWhileM] at taken
      obtain ⟨passes, passes_eq, taken⟩ := bind_eq_ok_iff.mp taken
      cases passes with
      | false =>
          obtain rfl : [] = nodes := Except.ok.inj taken
          simp
      | true =>
          obtain ⟨others, others_eq, taken⟩ := bind_eq_ok_iff.mp taken
          obtain rfl : here :: others = nodes := Except.ok.inj taken
          intro node member
          rcases List.mem_cons.mp member with rfl | later
          · exact ⟨List.mem_cons_self, passes_eq⟩
          · obtain ⟨visited, passed⟩ := ih () others_eq node later
            exact ⟨List.mem_cons_of_mem _ visited, passed⟩

namespace ScopeTree

variable {tree : ScopeTree}

theorem ancestors_of_error {node : Handle} {fault : Fault}
    (failed : tree.parent node = .error fault) :
    tree.ancestors node = .broken fault := by
  simp only [ancestors, failed]

theorem visited_ancestorsAndSelf (loopless : Loopless tree.NamesParent) (node : Handle) :
    (tree.ancestorsAndSelf node).visited = node :: (tree.ancestors node).visited := by
  rw [ancestorsAndSelf_eq loopless, Walk.visited]

theorem mem_ancestorsAndSelf (loopless : Loopless tree.NamesParent) (node : Handle) :
    node ∈ (tree.ancestorsAndSelf node).visited := by
  rw [visited_ancestorsAndSelf loopless]
  exact List.mem_cons_self

theorem mem_ancestorsAndSelf_of_mem_ancestors (loopless : Loopless tree.NamesParent)
    {node other : Handle} (member : other ∈ (tree.ancestors node).visited) :
    other ∈ (tree.ancestorsAndSelf node).visited := by
  rw [visited_ancestorsAndSelf loopless]
  exact List.mem_cons_of_mem _ member

/-- An ancestor is the parent or an ancestor of the parent. -/
theorem exists_parent_of_mem_ancestors {node other : Handle}
    (member : other ∈ (tree.ancestors node).visited) :
    ∃ parent, tree.parent node = .ok (some parent) ∧
      other ∈ (tree.ancestorsAndSelf parent).visited := by
  cases parent_eq : tree.parent node with
  | error fault => simp [ancestors_of_error parent_eq, Walk.visited] at member
  | ok named =>
      cases named with
      | none => simp [ancestors_of_root parent_eq, Walk.visited] at member
      | some parent => exact ⟨parent, rfl, by rwa [ancestors_of_parent parent_eq] at member⟩

/-- What is above an ancestor is above the node. -/
theorem mem_ancestors_trans (loopless : Loopless tree.NamesParent) {node above other : Handle}
    (member : above ∈ (tree.ancestors node).visited)
    (also : other ∈ (tree.ancestorsAndSelf above).visited) :
    other ∈ (tree.ancestors node).visited := by
  induction depth : tree.height tree.NamesParent node using Nat.strongRecOn generalizing node with
  | ind depth ih =>
      obtain ⟨parent, parent_eq, reached⟩ := exists_parent_of_mem_ancestors member
      have lower := height_parent_lt loopless parent_eq
      rw [ancestors_of_parent parent_eq]
      rw [visited_ancestorsAndSelf loopless] at reached
      rcases List.mem_cons.mp reached with rfl | further
      · exact also
      · exact mem_ancestorsAndSelf_of_mem_ancestors loopless (ih _ (by omega) further rfl)

/-- Fewer records are above an ancestor than above the node. -/
theorem height_lt_of_mem_ancestors (loopless : Loopless tree.NamesParent) {node above : Handle}
    (member : above ∈ (tree.ancestors node).visited) :
    tree.height tree.NamesParent above < tree.height tree.NamesParent node := by
  induction depth : tree.height tree.NamesParent node using Nat.strongRecOn generalizing node with
  | ind depth ih =>
      obtain ⟨parent, parent_eq, reached⟩ := exists_parent_of_mem_ancestors member
      have lower := height_parent_lt loopless parent_eq
      rw [visited_ancestorsAndSelf loopless] at reached
      rcases List.mem_cons.mp reached with rfl | further
      · omega
      · have := ih _ (by omega) further rfl
        omega

theorem parent_mem_ancestors (loopless : Loopless tree.NamesParent) {node parent : Handle}
    (parent_eq : tree.parent node = .ok (some parent)) :
    parent ∈ (tree.ancestors node).visited := by
  rw [ancestors_of_parent parent_eq]
  exact mem_ancestorsAndSelf loopless parent

variable {node : Nat}

theorem exists_place_of_mem_ancestors (ordered : tree.Ordered) (inside : node < tree.size)
    {other : Handle} (member : other ∈ (tree.ancestorsAndSelf (node : Int)).visited) :
    ∃ place : Nat, other = place ∧ place < tree.size := by
  induction node using Nat.strongRecOn with
  | ind node ih =>
      rw [visited_ancestorsAndSelf ordered.loopless] at member
      rcases List.mem_cons.mp member with rfl | further
      · exact ⟨node, rfl, inside⟩
      · rcases ordered node inside with root_eq | ⟨parent, parent_lt, parent_eq⟩
        · simp [ancestors_of_root root_eq, Walk.visited] at further
        · rw [ancestors_of_parent parent_eq] at further
          exact ih parent parent_lt (by omega) further

/-- The kinds above a node are those of its ancestors. -/
theorem mem_tail_lineage_iff (ordered : tree.Ordered) (inside : node < tree.size) {wanted : Kind} :
    wanted ∈ (tree.lineage (node : Int)).tail ↔
      ∃ above ∈ (tree.ancestors (node : Int)).visited, tree.kind above = .ok wanted := by
  have kind_eq := kind_natCast tree inside
  rw [lineage, visited_ancestorsAndSelf ordered.loopless, List.filterMap_cons, kind_eq]
  simp only [Except.toOption, List.tail_cons, List.mem_filterMap]
  refine exists_congr fun above => and_congr_right' ?_
  cases tree.kind above <;> simp

/-- What a search upwards finds is an ancestor that passes the test. -/
theorem exists_place_of_nearestAbove {test : Test} {verdict : List Kind → Bool}
    (judges : tree.Judges test verdict) (ordered : tree.Ordered) (inside : node < tree.size)
    {found : Handle} (nearest_eq : tree.nearestAbove test (node : Int) = .ok (some found)) :
    ∃ place : Nat, found = place ∧ place < node ∧ verdict (tree.lineage place) = true ∧
      (place : Int) ∈ (tree.ancestors (node : Int)).visited := by
  obtain ⟨place, rfl, place_lt, passes, -⟩ := judges.of_nearestAbove ordered inside nearest_eq
  exact ⟨place, rfl, place_lt, passes, (Walk.mem_visited_of_findM? nearest_eq).1⟩

end ScopeTree

end BinaryName
