import BinaryName.Proofs.Cache.Transparency
import BinaryName.Proofs.Naming.Counting
import BinaryName.Proofs.Tree.Duality

/-!
# Scopes as a partition

The file and the top-level classes of a grammatical file are the roots of its scopes.  The walks
below these roots share the anonymous classes out among them: each is numbered below the root that
the search upwards from it finds, and below no other.  What the file numbers is in no top-level
class.
-/

namespace BinaryName

namespace ScopeTree

/-- The node is the root of a scope: a file or a top-level class. -/
def rootsScope (tree : ScopeTree) : Test :=
  .either (tree.hasKind .file) (tree.plays .topLevelClass)

variable {tree : ScopeTree}

theorem judges_rootsScope (ordered : tree.Ordered) :
    tree.Judges tree.rootsScope fun line =>
      line.head? == some .file || Role.topLevelClass.fits line :=
  (judges_hasKind ordered .file).either (judges_plays ordered .topLevelClass)

theorem exists_place_of_isAnonymous (ordered : tree.Ordered) {node : Handle}
    (member : node ∈ tree.handles) (anonymous : tree.isAnonymous node = .ok true) :
    ∃ place : Nat, node = place ∧ place < tree.size ∧ tree.numbers place = true := by
  obtain ⟨place, rfl, inside⟩ := mem_handles.mp member
  have verdict := judges_isAnonymous ordered place inside
  exact ⟨place, rfl, inside, Except.ok.inj (verdict.symm.trans anonymous)⟩

end ScopeTree

namespace Decl.Fills

open ScopeTree

variable {whole : Decl} {tree : ScopeTree} {root node : Nat}

/-- Nothing holds a file, so only the first node is one. -/
theorem eq_zero_of_file (fills : whole.Fills tree) (nested : tree.WellNested)
    (inside : root < tree.size) (file : (tree.lineage root).head? = some .file) : root = 0 := by
  by_contra later
  obtain ⟨parent, -, parent_lt, parent_eq, -⟩ := fills.listed (by omega : 0 < root) inside
  obtain ⟨kind, outer, above, line, -, holds⟩ :=
    nested.lineage_of_parent fills.ordered inside parent_lt parent_eq
  rw [line, List.head?_cons, Option.some.injEq] at file
  subst file
  cases outer <;> simp [Kind.holds] at holds

theorem rootsScope_iff (fills : whole.Fills tree) (nested : tree.WellNested)
    (inside : root < tree.size) :
    tree.rootsScope (root : Int) = .ok true ↔ tree.IsScopeRoot root := by
  rw [judges_rootsScope fills.ordered root inside, Except.ok.injEq, Bool.or_eq_true, beq_iff_eq,
    IsScopeRoot]
  refine or_congr_left ⟨fills.eq_zero_of_file nested inside, ?_⟩
  rintro rfl
  rw [fills.lineage_first nested]
  rfl

/-- A scope numbers the anonymous classes of which it is the scope. -/
theorem exists_numbering (fills : whole.Fills tree) (nested : tree.WellNested)
    (inside : root < tree.size) (isRoot : tree.IsScopeRoot root) :
    ∃ numbering, (Inquiry.numbering root).outcome tree = .ok numbering ∧
      ∀ node, node ∈ numbering.nodes ↔
        node ∈ tree.handles ∧ tree.isAnonymous node = .ok true ∧
        tree.scopeOf node = .ok (root : Int) := by
  refine ⟨.ofList (tree.handles.filter (tree.belongs root)), ?_, fun node => ?_⟩
  · rw [Inquiry.outcome_eq_eval, Inquiry.eval_numbering,
      fills.numbering_eq_belongs nested inside isRoot]
  · rw [Numbering.nodes_ofList, List.mem_filter, belongs, decide_eq_true_iff]

/-- There is no top-level class around what the walk below the file keeps. -/
theorem not_topLevelClass_of_kept (fills : whole.Fills tree) (nested : tree.WellNested)
    (member : (node : Int) ∈ whole.kept (tree.passesBy (0 : Nat)) 0) :
    ∀ above ∈ (tree.ancestorsAndSelf (node : Int)).visited,
      tree.plays .topLevelClass above = .ok false := by
  have ordered := fills.ordered
  have first := fills.lineage_first nested
  have judges := judges_plays ordered .topLevelClass
  have within : 0 + whole.count ≤ tree.size := by have := fills.size_eq; omega
  refine fills.kept_induction (motive := fun node =>
    ∀ above ∈ (tree.ancestorsAndSelf (node : Int)).visited,
      tree.plays .topLevelClass above = .ok false) fills.planted within ?_ ?_ member
  · rw [visited_ancestorsAndSelf ordered.loopless, ancestors_of_root fills.planted.parent_eq]
    refine List.forall_mem_cons.mpr ⟨?_, by simp [Walk.visited]⟩
    exact judges.of_verdict fills.planted.lt_size (by rw [first]; rfl)
  · intro node above inside above_lt parent_eq unskipped around
    rw [visited_ancestorsAndSelf ordered.loopless, ancestors_of_parent parent_eq]
    refine List.forall_mem_cons.mpr ⟨judges.of_verdict inside ?_, around⟩
    rwa [passesBy, first, List.head?_cons, beq_self_eq_true, Bool.true_and] at unskipped

/-- What the file numbers is in no top-level class. -/
theorem not_topLevelClass_of_scopeOf_file (fills : whole.Fills tree) (nested : tree.WellNested)
    (inside : node < tree.size) (counted : tree.numbers node = true)
    (scope_eq : tree.scopeOf (node : Int) = .ok ((0 : Nat) : Int)) :
    ∀ above ∈ (tree.ancestors (node : Int)).visited,
      tree.plays .topLevelClass above = .ok false := by
  have within : 0 + whole.count ≤ tree.size := by have := fills.size_eq; omega
  have member := (fills.mem_kept_iff_scopeOf nested fills.planted within (Or.inl rfl) inside
    counted).mpr scope_eq
  exact fun above above_member => fills.not_topLevelClass_of_kept nested member above
    (mem_ancestorsAndSelf_of_mem_ancestors fills.ordered.loopless above_member)

/-- The scope of an anonymous class is the only one that numbers it. -/
theorem existsUnique_numbering (fills : whole.Fills tree) (nested : tree.WellNested)
    (inside : node < tree.size) (counted : tree.numbers node = true) :
    ∃! scope, scope ∈ tree.handles ∧ tree.rootsScope scope = .ok true ∧
      ∃ numbering, (Inquiry.numbering scope).outcome tree = .ok numbering ∧
        (node : Int) ∈ numbering.nodes := by
  have anonymous := (judges_isAnonymous fills.ordered).of_verdict inside counted
  obtain ⟨root, root_le, scope_eq, isRoot⟩ := fills.exists_scope nested inside counted
  have root_inside : root < tree.size := by omega
  obtain ⟨numbering, numbering_eq, mem_iff⟩ := fills.exists_numbering nested root_inside isRoot
  have member : (node : Int) ∈ numbering.nodes :=
    (mem_iff node).mpr ⟨mem_handles.mpr ⟨node, rfl, inside⟩, anonymous, scope_eq⟩
  refine ⟨root, ⟨mem_handles.mpr ⟨root, rfl, root_inside⟩,
    (fills.rootsScope_iff nested root_inside).mpr isRoot, numbering, numbering_eq, member⟩, ?_⟩
  rintro other ⟨other_member, roots, others, others_eq, member⟩
  obtain ⟨other, rfl, other_inside⟩ := mem_handles.mp other_member
  obtain ⟨also, also_eq, also_iff⟩ := fills.exists_numbering nested other_inside
    ((fills.rootsScope_iff nested other_inside).mp roots)
  obtain rfl : others = also := Except.ok.inj (others_eq.symm.trans also_eq)
  obtain ⟨-, -, other_scope⟩ := (also_iff node).mp member
  exact Except.ok.inj (other_scope.symm.trans scope_eq)

end Decl.Fills

namespace Decl

open ScopeTree

/-- The scopes of a grammatical file share its anonymous classes out.  A scope numbers a node
exactly if the node is an anonymous class of which it is the scope, and what the file numbers has no
top-level class around it.  So every anonymous class is numbered in one scope only, and it has an
index. -/
theorem Grammatical.scopes_partition {decl : Decl} (grammatical : decl.Grammatical) :
    ∃ built, decl.layout = .ok built ∧
      (∀ root ∈ built.tree.handles, built.tree.rootsScope root = .ok true →
        ∃ numbering, (Inquiry.numbering root).outcome built.tree = .ok numbering ∧
          (∀ node, node ∈ numbering.nodes ↔ node ∈ built.tree.handles ∧
            built.tree.isAnonymous node = .ok true ∧ built.tree.scopeOf node = .ok root) ∧
          (built.tree.kind root = .ok .file → ∀ node ∈ numbering.nodes,
            ∀ above ∈ (built.tree.ancestors node).visited,
              built.tree.plays .topLevelClass above = .ok false)) ∧
      ∀ node ∈ built.tree.handles, built.tree.isAnonymous node = .ok true →
        (∃! root, root ∈ built.tree.handles ∧ built.tree.rootsScope root = .ok true ∧
          ∃ numbering, (Inquiry.numbering root).outcome built.tree = .ok numbering ∧
            node ∈ numbering.nodes) ∧
        ∃ index, (built.tree.indexOf node).outcome built.tree = .ok index := by
  obtain ⟨built, laid⟩ := grammatical.exists_layout
  have fills := fills_of_layout laid
  have nested := grammatical.wellNested fills
  have ordered := fills.ordered
  refine ⟨built, laid, ?_, ?_⟩
  · intro root root_member roots
    obtain ⟨place, rfl, place_lt⟩ := mem_handles.mp root_member
    have isRoot := (fills.rootsScope_iff nested place_lt).mp roots
    obtain ⟨numbering, numbering_eq, mem_iff⟩ := fills.exists_numbering nested place_lt isRoot
    refine ⟨numbering, numbering_eq, mem_iff, fun file node member => ?_⟩
    obtain ⟨node_member, anonymous, scope_eq⟩ := (mem_iff node).mp member
    obtain ⟨node, rfl, node_lt, counted⟩ :=
      exists_place_of_isAnonymous ordered node_member anonymous
    rw [kind_natCast _ place_lt] at file
    obtain rfl := fills.eq_zero_of_file nested place_lt
      ((head?_lineage ordered place_lt).trans (congrArg some (Except.ok.inj file)))
    exact fills.not_topLevelClass_of_scopeOf_file nested node_lt counted scope_eq
  · intro node node_member anonymous
    obtain ⟨node, rfl, node_lt, counted⟩ :=
      exists_place_of_isAnonymous ordered node_member anonymous
    refine ⟨fills.existsUnique_numbering nested node_lt counted, ?_⟩
    obtain ⟨root, -, scope_eq, -⟩ := fills.exists_scope nested node_lt counted
    rw [Inquiry.outcome_eq_eval]
    exact ⟨_, fills.eval_indexOf_eq nested node_lt counted scope_eq⟩

/-- The lambda in the class is numbered below the class, the other one below the file. -/
theorem Grammatical.scopes_partition_classBesideFunction :
    classBesideFunction.Grammatical ∧ ∃ built, classBesideFunction.layout = .ok built ∧
      (∃ numbering, (Inquiry.numbering 0).outcome built.tree = .ok numbering ∧
        5 ∈ numbering.nodes ∧ 3 ∉ numbering.nodes) ∧
      (∃ numbering, (Inquiry.numbering 1).outcome built.tree = .ok numbering ∧
        3 ∈ numbering.nodes ∧ 5 ∉ numbering.nodes) ∧
      (∃! root, root ∈ built.tree.handles ∧ built.tree.rootsScope root = .ok true ∧
        ∃ numbering, (Inquiry.numbering root).outcome built.tree = .ok numbering ∧
          3 ∈ numbering.nodes) ∧
      ∃ index, (built.tree.indexOf 3).outcome built.tree = .ok index := by
  obtain ⟨built, laid, shares, each⟩ := grammatical_classBesideFunction.scopes_partition
  obtain rfl : LabelledTree.ofTree besideTree = built :=
    Except.ok.inj (layout_classBesideFunction.symm.trans laid)
  obtain ⟨outer, outer_eq, outer_iff, -⟩ := shares 0 (by decide) (by decide)
  obtain ⟨inner, inner_eq, inner_iff, -⟩ := shares 1 (by decide) (by decide)
  obtain ⟨unique, index⟩ := each 3 (by decide) (by decide)
  refine ⟨grammatical_classBesideFunction, _, laid, ⟨outer, outer_eq, ?_, ?_⟩,
    ⟨inner, inner_eq, ?_, ?_⟩, unique, index⟩
  · exact (outer_iff 5).mpr (by decide)
  · exact fun member => absurd ((outer_iff 3).mp member) (by decide)
  · exact (inner_iff 3).mpr (by decide)
  · exact fun member => absurd ((inner_iff 5).mp member) (by decide)

end Decl

end BinaryName
