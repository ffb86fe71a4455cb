import BinaryName.Proofs.Decl.Encoding
import BinaryName.Proofs.Decl.Grammar
import BinaryName.Proofs.Tree.Scope

/-!
# Walks up and down

In a tree that has been laid out a walk down and a walk up are two views of one thing: the walk
below a root meets a node exactly if the walk up from the node comes to the root before it meets
anything that is skipped.  The walk down has its nodes in the order of their handles, and without
anything to skip it has all handles from that of the root on for as many as there are entries below.
-/

namespace BinaryName

theorem Walk.nodes_visit (node : Handle) (rest : Unit → Walk) :
    (Walk.visit node rest).nodes = (rest ()).nodes.map (node :: ·) := by
  rw [nodes_eq, nodes_eq, fault?, visited]
  cases (rest ()).fault? <;> rfl

namespace ScopeTree

/-- The walk up from the node comes to the root, and it meets nothing that is skipped before. -/
def ClimbsTo (tree : ScopeTree) (skip : Handle → Bool) (root node : Handle) : Prop :=
  ∃ below above, (tree.ancestorsAndSelf node).nodes = .ok (below ++ root :: above) ∧
    ∀ other ∈ below, skip other = false

variable {tree : ScopeTree} {skip : Handle → Bool} {root node parent : Nat}

theorem nodes_ancestorsAndSelf_of_root (ordered : tree.Ordered)
    (root_eq : tree.parent (node : Int) = .ok none) :
    (tree.ancestorsAndSelf (node : Int)).nodes = .ok [(node : Int)] := by
  rw [ancestorsAndSelf_eq ordered.loopless, Walk.nodes_visit, ancestors_of_root root_eq]
  rfl

theorem nodes_ancestorsAndSelf_of_parent (ordered : tree.Ordered)
    (parent_eq : tree.parent (node : Int) = .ok (some (parent : Int))) :
    (tree.ancestorsAndSelf (node : Int)).nodes =
      (tree.ancestorsAndSelf (parent : Int)).nodes.map ((node : Int) :: ·) := by
  rw [ancestorsAndSelf_eq ordered.loopless, Walk.nodes_visit, ancestors_of_parent parent_eq]

theorem exists_nodes_ancestorsAndSelf (ordered : tree.Ordered) (inside : node < tree.size) :
    ∃ above, (tree.ancestorsAndSelf (node : Int)).nodes = .ok ((node : Int) :: above) := by
  induction node using Nat.strongRecOn with
  | ind node ih =>
      rcases ordered node inside with root_eq | ⟨parent, parent_lt, parent_eq⟩
      · exact ⟨[], nodes_ancestorsAndSelf_of_root ordered root_eq⟩
      · obtain ⟨above, above_eq⟩ := ih parent parent_lt (by omega)
        exact ⟨_, by rw [nodes_ancestorsAndSelf_of_parent ordered parent_eq, above_eq]; rfl⟩

theorem climbsTo_self (ordered : tree.Ordered) (inside : root < tree.size) :
    tree.ClimbsTo skip root root := by
  obtain ⟨above, above_eq⟩ := exists_nodes_ancestorsAndSelf ordered inside
  exact ⟨[], above, above_eq, by simp⟩

theorem not_climbsTo_of_root (ordered : tree.Ordered) (other : node ≠ root)
    (root_eq : tree.parent (node : Int) = .ok none) : ¬tree.ClimbsTo skip root node := by
  rintro ⟨below, above, nodes_eq, -⟩
  rw [nodes_ancestorsAndSelf_of_root ordered root_eq] at nodes_eq
  have member : (root : Int) ∈ [(node : Int)] := by
    rw [Except.ok.inj nodes_eq]
    simp
  exact other (Int.ofNat_inj.mp (List.mem_singleton.mp member)).symm

/-- A step up leads to the root if it does not start from a node that is skipped. -/
theorem climbsTo_of_parent_iff (ordered : tree.Ordered) (other : node ≠ root)
    (parent_eq : tree.parent (node : Int) = .ok (some (parent : Int))) :
    tree.ClimbsTo skip root node ↔ tree.ClimbsTo skip root parent ∧ skip node = false := by
  have nodes_eq := nodes_ancestorsAndSelf_of_parent ordered parent_eq
  constructor
  · rintro ⟨below, above, climb_eq, unskipped⟩
    rw [nodes_eq] at climb_eq
    obtain ⟨line, line_eq, split⟩ := map_eq_ok_iff.mp climb_eq
    cases below with
    | nil => exact absurd (Int.ofNat_inj.mp (List.cons.inj split).1) other
    | cons first below =>
        obtain ⟨rfl, rfl⟩ := List.cons.inj split
        obtain ⟨here, others⟩ := List.forall_mem_cons.mp unskipped
        exact ⟨⟨below, above, line_eq, others⟩, here⟩
  · rintro ⟨⟨below, above, climb_eq, unskipped⟩, here⟩
    refine ⟨(node : Int) :: below, above, ?_, List.forall_mem_cons.mpr ⟨here, unskipped⟩⟩
    rw [nodes_eq, climb_eq]
    rfl

end ScopeTree

namespace Decl

open ScopeTree

mutual

theorem count_unmarked : ∀ decl : Decl, decl.unmarked.count = decl.count
  | .declare _ children => by rw [unmarked, count, count, countAll_unmarkedAll children]
  | .foreign _ => rfl

theorem countAll_unmarkedAll : ∀ decls : List Decl, countAll (unmarkedAll decls) = countAll decls
  | [] => rfl
  | decl :: rest => by
      rw [unmarkedAll, countAll, countAll, count_unmarked decl, countAll_unmarkedAll rest]

end

namespace Fills

variable {whole nest : Decl} {tree : ScopeTree} {skip : Handle → Bool} {parent : Option Nat}
  {root node : Nat}

/-- The walk below a root keeps the nodes that climb to the root. -/
theorem mem_kept_iff_climbsTo (fills : whole.Fills tree) (planted : nest.Planted tree parent root)
    (inside : node < tree.size) :
    (node : Int) ∈ nest.kept skip root ↔ tree.ClimbsTo skip root node := by
  have ordered := fills.ordered
  induction node using Nat.strongRecOn with
  | ind node ih =>
      by_cases first : node = root
      · subst first
        exact iff_of_true (mem_kept_first planted) (climbsTo_self ordered inside)
      · rcases ordered node inside with root_eq | ⟨above, above_lt, parent_eq⟩
        · refine iff_of_false (fun member => ?_) (not_climbsTo_of_root ordered first root_eq)
          rcases parent_of_mem_kept nest planted member with same | ⟨-, above, -, parent_eq⟩
          · exact first (Int.ofNat_inj.mp same)
          · rw [root_eq] at parent_eq
            simp at parent_eq
        · rw [fills.mem_kept_iff planted inside parent_eq first,
            climbsTo_of_parent_iff ordered first parent_eq]
          exact and_congr_left' (ih above above_lt (by omega))

end Fills

/-- In a tree that has been laid out the walk below a root, whatever it skips, has the nodes that
climb to the root, in the order of their handles and so each of them once.  If it skips nothing it
has the handles from that of the root on, as many as the nest below the root has entries. -/
theorem preorder_dual_ancestors {decl : Decl} {built : LabelledTree}
    (laid : decl.layout = .ok built) {root : Nat} (inside : root < built.tree.size) :
    (∀ (test : Test) (skip : Handle → Bool), built.tree.Decides test skip →
      ∃ nodes, (built.tree.preorder test root).nodes = .ok nodes ∧
        (∀ node, node ∈ nodes ↔ node ∈ built.tree.handles ∧ built.tree.ClimbsTo skip root node) ∧
        nodes.Pairwise fun node later : Int => node < later) ∧
      ∃ nest, built.tree.nestWithin built.tree.size root = .ok nest ∧
        (built.tree.preorder .never root).nodes = .ok (handlesFrom root nest.count) := by
  have fills := fills_of_layout laid
  obtain ⟨nest, parent, planted, within⟩ := fills.exists_planted_at inside
  have kept_nodes : ∀ {test : Test} {skip : Handle → Bool}, built.tree.Decides test skip →
      (built.tree.preorder test root).nodes = .ok (nest.kept skip root) := by
    intro test skip decides
    rw [fills.preorder_eq decides planted within, Walk.nodes_stop_after]
  constructor
  · intro test skip decides
    refine ⟨_, kept_nodes decides, fun node => ?_,
      (pairwise_handlesFrom root nest.count).sublist (kept_sublist skip root nest)⟩
    rw [built.tree.handles_eq]
    constructor
    · intro member
      obtain ⟨place, rfl, place_lt⟩ := Fills.exists_place_of_kept within node member
      exact ⟨mem_handlesFrom.mpr ⟨place, rfl, by omega, by omega⟩,
        (fills.mem_kept_iff_climbsTo planted place_lt).mp member⟩
    · rintro ⟨member, climbs⟩
      obtain ⟨place, rfl, -, place_lt⟩ := mem_handlesFrom.mp member
      exact (fills.mem_kept_iff_climbsTo planted (by omega)).mpr climbs
  · refine ⟨nest.unmarked, nestWithin_eq nest planted (by omega), ?_⟩
    rw [kept_nodes built.tree.decides_never, count_unmarked,
      kept_eq_handlesFrom nest planted fun _ _ _ => rfl]

/-- Where top-level classes are skipped the lambda in the class is not met, and the walk up from it
comes to the class first. -/
theorem preorder_dual_ancestors_classBesideFunction :
    ∃ built, classBesideFunction.layout = .ok built ∧ 0 < built.tree.size ∧ 1 < built.tree.size ∧
      built.tree.Decides (built.tree.plays .topLevelClass) (· == 1) ∧
      (built.tree.preorder (built.tree.plays .topLevelClass) 0).nodes = .ok [0, 4, 5] ∧
      built.tree.ClimbsTo (· == 1) 0 5 ∧ ¬built.tree.ClimbsTo (· == 1) 0 3 ∧
      ∃ nest, built.tree.nestWithin 6 1 = .ok nest ∧ nest.count = 3 ∧
        (built.tree.preorder .never 1).nodes = .ok [1, 2, 3] := by
  have decides : besideTree.Decides (besideTree.plays .topLevelClass) (· == 1) := by
    unfold ScopeTree.Decides
    decide
  have walked :
      (besideTree.preorder (besideTree.plays .topLevelClass) 0).nodes = .ok [0, 4, 5] := by
    decide +kernel
  have inside : 0 < besideTree.size := by decide
  have class_inside : 1 < besideTree.size := by decide
  obtain ⟨dual, -⟩ := preorder_dual_ancestors layout_classBesideFunction inside
  obtain ⟨-, nest, nest_eq, interval⟩ :=
    preorder_dual_ancestors layout_classBesideFunction class_inside
  obtain ⟨nodes, nodes_eq, mem_iff, -⟩ := dual _ _ decides
  obtain rfl : [0, 4, 5] = nodes := Except.ok.inj (walked.symm.trans nodes_eq)
  have count_eq : nest.count = 3 := by
    have three : (besideTree.preorder .never 1).nodes = .ok [1, 2, 3] := by
      decide +kernel
    have same := congrArg List.length (Except.ok.inj (three.symm.trans interval))
    simpa using same.symm
  rw [count_eq] at interval
  exact ⟨_, layout_classBesideFunction, inside, class_inside, decides, walked,
    ((mem_iff 5).mp (by decide)).2,
    fun climbs => absurd ((mem_iff 3).mpr ⟨by decide, climbs⟩) (by decide), nest, nest_eq,
    count_eq, interval⟩

end Decl

end BinaryName
