import Mathlib.Data.Finset.Card
import BinaryName.Proofs.Cache.Transparency
import BinaryName.Proofs.Naming.Evaluation
import BinaryName.Proofs.Tree.Closed
import BinaryName.Proofs.Tree.Scope

/-!
# Numberings of trees that list a node again

A node that several records list, or one record twice, is visited and counted again.  It keeps its
place in the numbering and loses its index: what counts is the last visit, and the nodes before it.
So the indices go without gap from 1 on only where no visit is a second one.
-/

namespace BinaryName

namespace Numbering

/-- The numbering after some visits to nodes that count. -/
def counting (visits : List Handle) : Numbering := visits.foldl count .empty

theorem counting_concat (visits : List Handle) (node : Handle) :
    counting (visits ++ [node]) = (counting visits).count node := by
  simp [counting]

/-- The nodes stand in the order of their first visits. -/
theorem nodes_counting (visits : List Handle) : (counting visits).nodes = visits.eraseDups :=
  Register.nodes_foldl (fun numbering node => numbering.nodes_put node _) visits

theorem nodup_counting (visits : List Handle) : (counting visits).nodes.Nodup := by
  induction visits using List.reverseRecOn with
  | nil => exact .nil
  | append_singleton visits node ih =>
      rw [counting_concat]
      exact Register.nodup_put ih node _

theorem size_counting (visits : List Handle) : (counting visits).size = visits.toFinset.card := by
  induction visits using List.reverseRecOn with
  | nil => rfl
  | append_singleton visits node ih =>
      rw [counting_concat, ← Register.length_nodes, count, Register.nodes_put, nodes_counting]
      by_cases met : node ∈ visits
      · have same : (visits ++ [node]).toFinset = visits.toFinset := by
          ext other
          simp only [List.mem_toFinset, List.mem_append, List.mem_singleton, or_iff_left_iff_imp]
          rintro rfl
          exact met
        rw [if_pos (List.mem_eraseDups.mpr met), same, ← ih, ← Register.length_nodes,
          nodes_counting]
      · have more : (visits ++ [node]).toFinset = insert node visits.toFinset := by
          ext other
          simp
        rw [if_neg (fun found => met (List.mem_eraseDups.mp found)), more,
          Finset.card_insert_of_notMem (by simpa using met), ← ih, ← Register.length_nodes,
          nodes_counting, List.length_append, List.length_singleton]

theorem get?_foldl_count {node : Handle} {visits : List Handle} (new : node ∉ visits)
    (numbering : Numbering) : (visits.foldl count numbering).get? node = numbering.get? node := by
  induction visits generalizing numbering with
  | nil => rfl
  | cons other visits ih =>
      obtain ⟨differ, later⟩ := not_or.mp fun met => new (List.mem_cons.mpr met)
      rw [List.foldl_cons, ih later, count, Register.get?_put, if_neg differ]

/-- The index of a node is one more than the number of different nodes before its last visit. -/
theorem get?_counting {before after : List Handle} {node : Handle} (last : node ∉ after) :
    (counting (before ++ node :: after)).get? node = some (before.toFinset.card + 1) := by
  have split : counting (before ++ node :: after) =
      after.foldl count ((counting before).count node) := by
    simp [counting]
  rw [split, get?_foldl_count last, count, Register.get?_put, if_pos rfl, size_counting]

/-- Where no visit is a second one, the nodes are numbered by their places. -/
theorem counting_of_nodup {visits : List Handle} (distinct : visits.Nodup) :
    counting visits = ofList visits := by
  induction visits using List.reverseRecOn with
  | nil => rfl
  | append_singleton visits node ih =>
      obtain ⟨earlier, -, apart⟩ := List.nodup_append.mp distinct
      have new : node ∉ visits := fun met => apart node met node (List.mem_singleton_self node) rfl
      rw [counting_concat, ih earlier, count_ofList new]

/-- The indices, in the order of the nodes. -/
def indices (numbering : Numbering) : List Nat := numbering.entries.map Prod.snd

/-- The numbering with all indices one higher, after a node with the first index. -/
def shifted (first : Handle) (numbering : Numbering) : Numbering :=
  { entries := (first, 1) :: numbering.entries.map fun entry => (entry.1, entry.2 + 1) }

theorem nodes_shifted (first : Handle) (numbering : Numbering) :
    (shifted first numbering).nodes = first :: numbering.nodes := by
  simp [shifted, Register.nodes, Function.comp_def]

theorem count_shifted {first node : Handle} (differ : node ≠ first) (numbering : Numbering) :
    (shifted first numbering).count node = shifted first (numbering.count node) := by
  have size_eq : (shifted first numbering).size = numbering.size + 1 := by
    simp [shifted, Register.size]
  rw [count, count, size_eq]
  by_cases met : node ∈ numbering.nodes
  · have met_shifted : node ∈ (shifted first numbering).nodes := by
      rw [nodes_shifted]
      exact List.mem_cons_of_mem _ met
    rw [Register.put_of_mem met_shifted, Register.put_of_mem met]
    simp only [shifted, Register.revalue, List.map_cons, if_neg (Ne.symm differ), List.map_map]
    congr 2
    apply List.map_congr_left
    intro entry _
    by_cases same : entry.1 = node <;> simp [same]
  · have new_shifted : node ∉ (shifted first numbering).nodes := by
      rw [nodes_shifted]
      exact fun found => (List.mem_cons.mp found).elim differ met
    rw [Register.put_of_notMem new_shifted, Register.put_of_notMem met]
    simp [shifted]

/-- A node that is visited first and never again has the first index, and all others follow. -/
theorem counting_cons {first : Handle} {visits : List Handle} (once : first ∉ visits) :
    counting (first :: visits) = shifted first (counting visits) := by
  induction visits using List.reverseRecOn with
  | nil => rfl
  | append_singleton visits node ih =>
      simp only [List.mem_append, List.mem_singleton, not_or] at once
      rw [← List.cons_append, counting_concat, ih once.1, counting_concat,
        count_shifted (Ne.symm once.2)]

theorem exists_last_visit {node : Handle} {visits : List Handle} (member : node ∈ visits) :
    ∃ before after, visits = before ++ node :: after ∧ node ∉ after := by
  obtain ⟨after, before, split, new⟩ := List.eq_append_cons_of_mem (List.mem_reverse.mpr member)
  refine ⟨before.reverse, after.reverse, ?_, by simpa using new⟩
  rw [← List.reverse_reverse visits, split]
  simp

theorem exists_get?_of_mem_indices {visits : List Handle} {index : Nat}
    (member : index ∈ indices (counting visits)) :
    ∃ node ∈ visits, (counting visits).get? node = some index := by
  obtain ⟨entry, entry_member, rfl⟩ := List.mem_map.mp member
  have met : entry.1 ∈ visits := by
    rw [← List.mem_eraseDups, ← nodes_counting]
    exact List.mem_map_of_mem entry_member
  exact ⟨entry.1, met, Register.get?_of_mem (nodup_counting visits) entry_member⟩

/-- The first index goes to the node that is visited first, unless it is visited again. -/
theorem one_notMem_indices {first : Handle} {visits : List Handle} (again : first ∈ visits) :
    1 ∉ indices (counting (first :: visits)) := by
  intro member
  obtain ⟨node, visited, index_eq⟩ := exists_get?_of_mem_indices member
  obtain ⟨before, after, split, last⟩ := exists_last_visit visited
  rw [split, get?_counting last] at index_eq
  have none_before : before = [] := by simpa using index_eq
  rw [none_before, List.nil_append] at split
  obtain ⟨rfl, rfl⟩ := List.cons.inj split
  exact last again

/-- The indices are the numbers from 1 on, each once, exactly if no node is visited again. -/
theorem indices_perm_iff (visits : List Handle) :
    (indices (counting visits)).Perm (List.range' 1 (counting visits).size) ↔ visits.Nodup := by
  induction visits with
  | nil => simp [counting, indices, Register.empty, Register.size]
  | cons first visits ih =>
      by_cases again : first ∈ visits
      · have distinct_not : ¬(first :: visits).Nodup := fun distinct =>
          (List.nodup_cons.mp distinct).1 again
        refine iff_of_false (fun perm => one_notMem_indices again ?_) distinct_not
        have positive : 0 < (counting (first :: visits)).size := by
          rw [size_counting]
          exact Finset.card_pos.mpr ⟨first, by simp⟩
        rw [perm.mem_iff, List.mem_range'_1]
        omega
      · have indices_eq : indices (shifted first (counting visits)) =
            1 :: (indices (counting visits)).map (· + 1) := by
          simp [indices, shifted, Function.comp_def]
        have size_eq : (shifted first (counting visits)).size = (counting visits).size + 1 := by
          simp [shifted, Register.size]
        have range_eq : List.range' 1 ((counting visits).size + 1) =
            1 :: (List.range' 1 (counting visits).size).map (· + 1) := by
          have higher := @List.map_add_range' 1 1 (counting visits).size 1
          simp only [Nat.add_comm 1] at higher
          rw [List.range'_succ, ← higher]
        rw [counting_cons again, indices_eq, size_eq, range_eq, List.perm_cons,
          List.map_perm_map_iff (add_left_injective 1), ih, List.nodup_cons,
          and_iff_right again]

end Numbering

namespace ScopeTree

variable {tree : ScopeTree}

/-- The anonymous classes of a scope in the order of the visits, as often as they are visited. -/
def countedVisits (tree : ScopeTree) (root : Handle) : Except Fault (List Handle) := do
  let walk ← tree.scopeWalk root
  let nodes ← walk.nodes
  pure (nodes.filter tree.isAnonymous.holds)

theorem countAlong_eq {walk : Walk} (stops : walk.fault? = none)
    (tested : ∀ node ∈ walk.visited, ∃ passes, tree.isAnonymous node = .ok passes)
    (numbering : Numbering) :
    tree.countAlong numbering walk =
      .ok ((walk.visited.filter tree.isAnonymous.holds).foldl Numbering.count numbering) := by
  induction walk generalizing numbering with
  | stop => rfl
  | broken fault => simp [Walk.fault?] at stops
  | visit node rest ih =>
      obtain ⟨⟨passes, passes_eq⟩, later⟩ := List.forall_mem_cons.mp tested
      have holds : tree.isAnonymous.holds node = passes := by rw [Test.holds, passes_eq]
      rw [countAlong, passes_eq, Walk.visited, List.filter_cons, holds]
      cases passes with
      | true => exact ih () stops later (numbering.count node)
      | false => exact ih () stops later numbering

/-- The numbering of a scope comes from the visits to its anonymous classes. -/
theorem Closed.exists_countedVisits (closed : tree.Closed) (acyclic : tree.Acyclic) {root : Handle}
    (readable : tree.Readable root) :
    ∃ visits, tree.countedVisits root = .ok visits ∧
      (Inquiry.numbering root).outcome tree = .ok (.counting visits) := by
  obtain ⟨walk, walk_eq, visited, stops⟩ := closed.exists_scopeWalk acyclic readable
  have tested := fun node member =>
    closed.total_isAnonymous acyclic.parents node (visited node member)
  refine ⟨walk.visited.filter tree.isAnonymous.holds, ?_, ?_⟩
  · rw [countedVisits, walk_eq]
    simp [bind, Except.bind, walk.nodes_eq, stops, pure, Except.pure]
  · rw [Inquiry.outcome_eq_eval, Inquiry.eval_numbering, numbering_eq, walk_eq]
    exact countAlong_eq stops tested .empty

end ScopeTree

/-- A tree that has been laid out lists every node once, so no visit is a second one. -/
theorem Decl.Fills.nodup_countedVisits {whole : Decl} {tree : ScopeTree} (fills : whole.Fills tree)
    {root : Nat} (inside : root < tree.size) {visits : List Handle}
    (visits_eq : tree.countedVisits root = .ok visits) : visits.Nodup := by
  obtain ⟨nest, above, planted, within⟩ := fills.exists_planted_at inside
  have walk_eq := fills.scopeWalk_eq planted within
  rw [ScopeTree.countedVisits, walk_eq] at visits_eq
  have filtered : (nest.kept (tree.passesBy root) root).filter tree.isAnonymous.holds = visits := by
    simpa [bind, Except.bind, Walk.nodes_stop_after, pure, Except.pure] using visits_eq
  rw [← filtered]
  exact (nodup_kept _ root nest).sublist List.filter_sublist

namespace ScopeTree

/-- The numbering of a scope of a closed tree without cycles, in terms of the visits to its
anonymous classes: the nodes stand in the order of their first visits, the index of a node is one
more than the number of different nodes before its last visit, and the indices are the numbers from
1 on exactly if no node is visited again.  None is in a tree that has been laid out, so there the
place of a visit is the index. -/
theorem numbering_of_visits :
    (∀ tree : ScopeTree, tree.Acyclic → tree.Closed → ∀ root, tree.Readable root →
      ∃ visits numbering, tree.countedVisits root = .ok visits ∧
        (Inquiry.numbering root).outcome tree = .ok numbering ∧
        numbering.nodes = visits.eraseDups ∧
        (∀ before node after, visits = before ++ node :: after → node ∉ after →
          numbering.get? node = some (before.toFinset.card + 1)) ∧
        ((numbering.entries.map Prod.snd).Perm (List.range' 1 numbering.size) ↔ visits.Nodup)) ∧
      ∀ (decl : Decl) (built : LabelledTree), decl.layout = .ok built →
        ∀ root : Nat, root < built.tree.size →
          ∃ visits numbering, built.tree.countedVisits root = .ok visits ∧
            (Inquiry.numbering root).outcome built.tree = .ok numbering ∧ visits.Nodup ∧
            numbering.nodes = visits ∧
            ∀ place node, visits[place]? = some node → numbering.get? node = some (place + 1) := by
  constructor
  · intro tree acyclic closed root readable
    obtain ⟨visits, visits_eq, numbering_eq⟩ := closed.exists_countedVisits acyclic readable
    refine ⟨visits, _, visits_eq, numbering_eq, Numbering.nodes_counting visits, ?_,
      Numbering.indices_perm_iff visits⟩
    rintro before node after rfl last
    exact Numbering.get?_counting last
  · intro decl built laid root inside
    have fills := Decl.fills_of_layout laid
    obtain ⟨visits, visits_eq, numbering_eq⟩ :=
      fills.closed.exists_countedVisits fills.acyclic (Decl.Fills.readable root inside)
    have distinct := fills.nodup_countedVisits inside visits_eq
    rw [Numbering.counting_of_nodup distinct] at numbering_eq
    exact ⟨visits, _, visits_eq, numbering_eq, distinct, Numbering.nodes_ofList visits,
      fun _ _ found => Numbering.get?_ofList_of_getElem? distinct found⟩

/-- A class that lists one of its lambdas before and after the other. -/
def listedTwice : ScopeTree :=
  { records :=
      #[{ kind := .file, name := some "a.kt", parent := none, children := [1] },
        { kind := .klass, name := some "A", parent := some 0, children := [2, 3, 2] },
        { kind := .lambda, name := none, parent := some 1, children := [] },
        { kind := .lambda, name := none, parent := some 1, children := [] }]
    size_pos := by decide
    parent_root := rfl }

theorem acyclic_listedTwice : listedTwice.Acyclic :=
  ⟨loopless_of_measure Fin.val (by decide),
    loopless_of_measure (fun place => 4 - place) (by decide)⟩

/-- A class with two lambdas. -/
def twoLambdas : Decl :=
  .declare (.unmarked .klass "A")
    [.declare (.unmarked .lambda none) [], .declare (.unmarked .lambda none) []]

/-- Its tree. -/
def twoLambdasTree : ScopeTree :=
  { records :=
      #[{ kind := .klass, name := some "A", parent := none, children := [1, 2] },
        { kind := .lambda, name := none, parent := some 0, children := [] },
        { kind := .lambda, name := none, parent := some 0, children := [] }]
    size_pos := by decide
    parent_root := rfl }

theorem layout_twoLambdas : twoLambdas.layout = .ok (.ofTree twoLambdasTree) :=
  (Decl.layout_eq _).trans rfl

/-- The lambda that is visited again has the index 3 in the end, although there are two lambdas. -/
theorem numbering_of_visits_listedTwice :
    (listedTwice.Acyclic ∧ listedTwice.Closed ∧ listedTwice.Readable 1 ∧
      ∃ numbering, (Inquiry.numbering 1).outcome listedTwice = .ok numbering ∧
        numbering.nodes = [2, 3] ∧ numbering.get? 2 = some 3 ∧ numbering.get? 3 = some 2 ∧
        ¬(numbering.entries.map Prod.snd).Perm (List.range' 1 numbering.size)) ∧
      ∃ built, twoLambdas.layout = .ok built ∧ 0 < built.tree.size ∧
        ∃ numbering, (Inquiry.numbering 0).outcome built.tree = .ok numbering ∧
          numbering.get? 1 = some 1 ∧ numbering.get? 2 = some 2 := by
  constructor
  · have closed : listedTwice.Closed := by decide
    have readable : listedTwice.Readable 1 := by decide
    obtain ⟨visits, numbering, visits_eq, numbering_eq, nodes_eq, indices_eq, perm_iff⟩ :=
      numbering_of_visits.1 listedTwice acyclic_listedTwice closed 1 readable
    obtain rfl : [2, 3, 2] = visits := Except.ok.inj visits_eq
    refine ⟨acyclic_listedTwice, closed, readable, numbering, numbering_eq, nodes_eq,
      indices_eq [2, 3] 2 [] rfl (by decide), indices_eq [2] 3 [2] rfl (by decide), ?_⟩
    rw [perm_iff]
    decide
  · have inside : 0 < twoLambdasTree.size := twoLambdasTree.size_pos
    obtain ⟨visits, numbering, visits_eq, numbering_eq, -, -, indices_eq⟩ :=
      numbering_of_visits.2 twoLambdas (.ofTree twoLambdasTree) layout_twoLambdas 0 inside
    obtain rfl : [1, 2] = visits := Except.ok.inj visits_eq
    exact ⟨_, layout_twoLambdas, inside, numbering, numbering_eq, indices_eq 0 1 rfl,
      indices_eq 1 2 rfl⟩

end ScopeTree

end BinaryName
