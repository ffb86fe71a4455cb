import BinaryName.Proofs.Naming.Domain
import BinaryName.Proofs.Tree.Nesting

/-!
# Indices by counting

The scope of an anonymous class is found by a search upwards, and its index by a walk downwards.  In
a tree whose kinds are nested the two agree: the walk below a root numbers exactly the anonymous
classes whose scope has that root, in the order of their handles.  So the index of such a class is
one more than the number of those before it in its scope.
-/

namespace BinaryName

namespace Lineage

variable {kind : Kind} {line above : List Kind}

theorem hidden_of_containers (containers : ∀ other ∈ line, other.isContainer = true) :
    hidden line = false := by
  induction line with
  | nil => rfl
  | cons kind above ih =>
      obtain ⟨container, further⟩ := List.forall_mem_cons.mp containers
      have not_klass : (kind == .klass) = false := by
        cases kind <;> simp_all [Kind.isContainer]
      rw [hidden, Role.fits, not_klass, ih further]
      simp

/-- No top-level function is hidden from its file. -/
theorem Nested.not_missed (nested : Nested line) : ¬Missed line := by
  rintro ⟨top, nearest_eq, function, hidden_eq⟩
  cases nested with
  | file => simp [Lineage.nearest] at nearest_eq
  | held holds around =>
      have top_nested := around.nearest nearest_eq
      cases top_nested with
      | file => simp [Role.fits] at function
      | @held _ container outer _ top_around =>
          rw [Role.fits, Bool.and_eq_true, List.head?_cons, Option.any_some] at function
          have containers : ∀ other ∈ container :: outer, other.isContainer = true :=
            List.forall_mem_cons.mpr ⟨function.2, top_around.isContainer_of_mem function.2⟩
          rw [List.tail_cons, hidden_of_containers containers] at hidden_eq
          contradiction

end Lineage

namespace ScopeTree

/-- The node is an anonymous class of the scope with the root. -/
def belongs (tree : ScopeTree) (root node : Handle) : Bool :=
  decide (tree.isAnonymous node = .ok true ∧ tree.scopeOf node = .ok root)

theorem belongs_iff {tree : ScopeTree} (ordered : tree.Ordered) {node : Nat}
    (inside : node < tree.size)
    (root : Handle) :
    tree.belongs root node = true ↔
      tree.numbers node = true ∧ tree.scopeOf (node : Int) = .ok root := by
  rw [belongs, decide_eq_true_iff, judges_isAnonymous ordered node inside, Except.ok.injEq, numbers]

/-- The node is the root of a whole file or of a top-level class. -/
def IsScopeRoot (tree : ScopeTree) (root : Nat) : Prop :=
  root = 0 ∨ Role.topLevelClass.fits (tree.lineage root) = true

end ScopeTree

namespace Decl.Fills

open ScopeTree

variable {whole nest : Decl} {tree : ScopeTree} {parent : Option Nat} {node root top : Nat}

theorem lineage_first (fills : whole.Fills tree) (nested : tree.WellNested) :
    tree.lineage (0 : Nat) = [.file] :=
  nested.lineage_of_root fills.ordered fills.planted.lt_size fills.planted.parent_eq

/-- Every node is in the file. -/
theorem nearestFrom_file (fills : whole.Fills tree) (nested : tree.WellNested)
    (inside : node < tree.size) :
    tree.nearestFrom (tree.hasKind .file) (node : Int) = .ok (some ((0 : Nat) : Int)) := by
  have ordered := fills.ordered
  have judges := judges_hasKind ordered .file
  induction node using Nat.strongRecOn with
  | ind node ih =>
      by_cases first : node = 0
      · subst first
        exact judges.nearestFrom_of_passes ordered inside (by rw [fills.lineage_first nested]; rfl)
      · obtain ⟨parent, -, parent_lt, parent_eq, -⟩ := fills.listed (by omega : 0 < node) inside
        obtain ⟨kind, outer, above, line, -, holds⟩ :=
          nested.lineage_of_parent ordered inside parent_lt parent_eq
        have other : ((tree.lineage node).head? == some .file) = false := by
          rw [line]
          cases outer <;> cases kind <;> simp_all [Kind.holds]
        rw [judges.nearestFrom_of_fails ordered inside other, nearestAbove_of_parent _ parent_eq]
        exact ih parent parent_lt (by omega)

/-! ## What a scope keeps -/

/-- The top-level declaration around what one of them keeps is that one. -/
theorem nearestFrom_of_kept_topLevel (fills : whole.Fills tree) (nested : tree.WellNested)
    (planted : nest.Planted tree parent root) (within : root + nest.count ≤ tree.size)
    (is_top : Lineage.isTopLevel (tree.lineage root) = true) {skip : Handle → Bool}
    (member : (node : Int) ∈ nest.kept skip root) :
    tree.nearestFrom tree.isTopLevel (node : Int) = .ok (some (root : Int)) := by
  have ordered := fills.ordered
  have judges := judges_isTopLevel ordered
  suffices kept : (tree.lineage node).head?.any Kind.isContainer = false ∧
      tree.nearestFrom tree.isTopLevel (node : Int) = .ok (some (root : Int)) from kept.2
  refine fills.kept_induction (motive := fun node =>
    (tree.lineage node).head?.any Kind.isContainer = false ∧
      tree.nearestFrom tree.isTopLevel (node : Int) = .ok (some (root : Int))) planted within ?_ ?_
    member
  · refine ⟨?_, judges.nearestFrom_of_passes ordered planted.lt_size is_top⟩
    rw [Lineage.isTopLevel, Bool.or_eq_true] at is_top
    rcases is_top with klass | function
    · rw [Role.head?_of_fits klass]
      rfl
    · rw [Role.head?_of_fits function]
      rfl
  · rintro node above inside above_lt parent_eq - ⟨inner, above_eq⟩
    obtain ⟨kind, outer, rest, line, above_line, holds⟩ :=
      nested.lineage_of_parent ordered inside above_lt parent_eq
    rw [above_line, List.head?_cons, Option.any_some] at inner
    have not_top : Lineage.isTopLevel (tree.lineage node) = false := by
      simp [line, Lineage.isTopLevel, Role.fits, inner]
    rw [judges.nearestFrom_of_fails ordered inside not_top, nearestAbove_of_parent _ parent_eq,
      line]
    refine ⟨?_, above_eq⟩
    cases outer <;> cases kind <;> simp_all [Kind.holds, Kind.isContainer]

/-- The top-level declaration around what a file keeps is a function. -/
theorem topLevelFunction_of_kept (fills : whole.Fills tree) (nested : tree.WellNested)
    (planted : nest.Planted tree parent 0) (within : 0 + nest.count ≤ tree.size)
    (member : (node : Int) ∈ nest.kept (tree.passesBy (0 : Nat)) 0)
    (nearest_eq : tree.nearestFrom tree.isTopLevel (node : Int) = .ok (some (top : Int))) :
    Role.topLevelFunction.fits (tree.lineage top) = true := by
  have ordered := fills.ordered
  have judges := judges_isTopLevel ordered
  have first := fills.lineage_first nested
  revert nearest_eq
  refine fills.kept_induction (motive := fun node =>
    tree.nearestFrom tree.isTopLevel (node : Int) = .ok (some (top : Int)) →
      Role.topLevelFunction.fits (tree.lineage top) = true) planted within ?_ ?_ member
  · intro nearest_eq
    have not_top : Lineage.isTopLevel (tree.lineage (0 : Nat)) = false := by rw [first]; rfl
    rw [judges.nearestFrom_of_fails ordered fills.planted.lt_size not_top,
      nearestAbove_of_root _ fills.planted.parent_eq] at nearest_eq
    simp at nearest_eq
  · intro node above inside above_lt parent_eq unskipped ih nearest_eq
    cases is_top : Lineage.isTopLevel (tree.lineage node) with
    | true =>
        rw [judges.nearestFrom_of_passes ordered inside is_top] at nearest_eq
        obtain rfl : node = top := Int.ofNat_inj.mp (Option.some.inj (Except.ok.inj nearest_eq))
        have not_klass : Role.topLevelClass.fits (tree.lineage node) = false := by
          rwa [passesBy, first, List.head?_cons, beq_self_eq_true, Bool.true_and] at unskipped
        rwa [Lineage.isTopLevel, not_klass, Bool.false_or] at is_top
    | false =>
        rw [judges.nearestFrom_of_fails ordered inside is_top, nearestAbove_of_parent _ parent_eq]
          at nearest_eq
        exact ih nearest_eq

/-! ## Scopes and their roots -/

theorem exists_topLevel (fills : whole.Fills tree) (nested : tree.WellNested)
    (inside : node < tree.size) (counted : tree.numbers node = true) :
    ∃ top : Nat, top < node ∧
      tree.nearestAbove tree.isTopLevel (node : Int) = .ok (some (top : Int)) := by
  have ordered := fills.ordered
  rcases (judges_isTopLevel ordered).nearestAbove ordered inside with
    ⟨-, no_line⟩ | ⟨top, top_lt, top_eq, -⟩
  · have line := nested node inside
    have not_top := line.not_isTopLevel counted
    obtain ⟨above, line_eq⟩ := List.head?_eq_some_iff.mp (head?_lineage ordered inside)
    rw [numbers] at counted
    rw [line_eq] at line not_top no_line counted
    have inner : tree.records[node].kind.isContainer = false := by
      cases kind : tree.records[node].kind <;>
        simp_all [Lineage.isAnonymous, Role.fits, Kind.isContainer]
    obtain ⟨top, top_eq⟩ := line.exists_topLevel inner
    rw [Lineage.nearest, not_top, if_neg Bool.false_ne_true] at top_eq
    rw [List.tail_cons, top_eq] at no_line
    contradiction
  · exact ⟨top, top_lt, top_eq⟩

theorem scopes_file (fills : whole.Fills tree) (nested : tree.WellNested) (inside : top < tree.size)
    (function : Role.topLevelFunction.fits (tree.lineage top) = true) :
    tree.Scopes top ((0 : Nat) : Int) := by
  obtain ⟨parent, parent_lt, parent_eq, -⟩ := exists_parent_of_fits fills.ordered inside function
  refine Or.inr ⟨function, ?_⟩
  rw [nearestAbove_of_parent _ parent_eq]
  exact fills.nearestFrom_file nested (by omega)

/-- Every anonymous class has a scope, and its root comes before the class. -/
theorem exists_scope (fills : whole.Fills tree) (nested : tree.WellNested)
    (inside : node < tree.size) (counted : tree.numbers node = true) :
    ∃ root : Nat, root < node ∧ tree.scopeOf (node : Int) = .ok (root : Int) ∧
      tree.IsScopeRoot root := by
  have ordered := fills.ordered
  obtain ⟨top, top_lt, top_eq⟩ := fills.exists_topLevel nested inside counted
  obtain ⟨-, is_top, -⟩ := (judges_isTopLevel ordered).of_nearestAbove_natCast ordered inside top_eq
  rw [Lineage.isTopLevel, Bool.or_eq_true] at is_top
  rcases is_top with klass | function
  · have scopes : tree.Scopes top (top : Int) := Or.inl ⟨klass, rfl⟩
    exact ⟨top, top_lt, (scopeOf_eq_ok_iff ordered inside).mpr ⟨top, top_eq, scopes⟩, Or.inr klass⟩
  · have scopes := fills.scopes_file nested (by omega) function
    exact ⟨0, by omega, (scopeOf_eq_ok_iff ordered inside).mpr ⟨top, top_eq, scopes⟩, Or.inl rfl⟩

/-- The walk below a root keeps the anonymous classes whose scope has that root, and no others. -/
theorem mem_kept_iff_scopeOf (fills : whole.Fills tree) (nested : tree.WellNested)
    (planted : nest.Planted tree parent root) (within : root + nest.count ≤ tree.size)
    (isRoot : tree.IsScopeRoot root) (inside : node < tree.size)
    (counted : tree.numbers node = true) :
    (node : Int) ∈ nest.kept (tree.passesBy root) root ↔
      tree.scopeOf (node : Int) = .ok (root : Int) := by
  have ordered := fills.ordered
  have line := nested node inside
  constructor
  · intro member
    obtain ⟨top, top_lt, top_eq⟩ := fills.exists_topLevel nested inside counted
    refine (scopeOf_eq_ok_iff ordered inside).mpr ⟨top, top_eq, ?_⟩
    rw [← (judges_isTopLevel ordered).nearestFrom_of_fails ordered inside
      (line.not_isTopLevel counted)]
      at top_eq
    rcases isRoot with rfl | klass
    · have function := fills.topLevelFunction_of_kept nested planted within member top_eq
      exact fills.scopes_file nested (by omega) function
    · have is_top : Lineage.isTopLevel (tree.lineage root) = true := by
        rw [Lineage.isTopLevel, klass, Bool.true_or]
      rw [fills.nearestFrom_of_kept_topLevel nested planted within is_top member] at top_eq
      obtain rfl : root = top := Int.ofNat_inj.mp (Option.some.inj (Except.ok.inj top_eq))
      exact Or.inl ⟨klass, rfl⟩
  · intro scope_eq
    obtain ⟨top, top_eq, scopes⟩ := (scopeOf_eq_ok_iff ordered inside).mp scope_eq
    exact (fills.mem_kept_iff_not_missed planted inside counted top_eq scopes).mpr line.not_missed

/-- A numbering lists the anonymous classes of its scope in the order of their handles. -/
theorem numbering_eq_belongs (fills : whole.Fills tree) (nested : tree.WellNested)
    (inside : root < tree.size) (isRoot : tree.IsScopeRoot root) :
    tree.numbering (root : Int) = .ok (.ofList (tree.handles.filter (tree.belongs root))) := by
  have ordered := fills.ordered
  obtain ⟨nest, parent, planted, within⟩ := fills.exists_planted_at inside
  have mem_iff : ∀ node, node ∈ (nest.kept (tree.passesBy root) root).filter tree.numbers ↔
      node ∈ (handlesFrom 0 tree.size).filter (tree.belongs root) := by
    intro node
    rw [List.mem_filter, List.mem_filter]
    constructor
    · rintro ⟨member, counted⟩
      obtain ⟨place, rfl, place_lt⟩ := exists_place_of_kept within node member
      have scope_eq := (fills.mem_kept_iff_scopeOf nested planted within isRoot place_lt counted).mp
        member
      exact ⟨mem_handlesFrom.mpr ⟨place, rfl, by omega, by omega⟩,
        (belongs_iff ordered place_lt root).mpr ⟨counted, scope_eq⟩⟩
    · rintro ⟨member, belongs⟩
      obtain ⟨place, rfl, -, place_lt⟩ := mem_handlesFrom.mp member
      rw [Nat.zero_add] at place_lt
      obtain ⟨counted, scope_eq⟩ := (belongs_iff ordered place_lt root).mp belongs
      exact ⟨(fills.mem_kept_iff_scopeOf nested planted within isRoot place_lt counted).mpr
        scope_eq, counted⟩
  rw [fills.numbering_eq planted within, tree.handles_eq]
  congr 2
  exact eq_of_sublist_handlesFrom (List.filter_sublist.trans (kept_sublist _ root nest))
    List.filter_sublist mem_iff

/-- The index of an anonymous class is one more than the number of those before it in its scope. -/
theorem eval_indexOf_eq (fills : whole.Fills tree) (nested : tree.WellNested)
    (inside : node < tree.size) (counted : tree.numbers node = true)
    (scope_eq : tree.scopeOf (node : Int) = .ok (root : Int)) :
    (tree.indexOf (node : Int)).eval tree =
      .ok ((List.range node).countP (fun other : Nat => tree.belongs root other) + 1) := by
  have ordered := fills.ordered
  obtain ⟨place, place_lt, place_eq, isRoot⟩ := fills.exists_scope nested inside counted
  obtain rfl : place = root := Int.ofNat_inj.mp (Except.ok.inj (place_eq.symm.trans scope_eq))
  have anonymous : tree.isAnonymous (node : Int) = .ok true :=
    (judges_isAnonymous ordered).of_verdict inside counted
  have belongs := (belongs_iff ordered inside place).mpr ⟨counted, scope_eq⟩
  obtain ⟨later, size_eq⟩ := Nat.exists_eq_add_of_lt inside
  have split : tree.handles.filter (tree.belongs place) =
      (handlesFrom 0 node).filter (tree.belongs place) ++
        (node : Int) :: (handlesFrom (node + 1) later).filter (tree.belongs place) := by
    rw [tree.handles_eq, size_eq, Nat.add_assoc, handlesFrom_add, Nat.zero_add, handlesFrom_succ,
      List.filter_append, List.filter_cons, if_pos belongs]
  have new : (node : Int) ∉ (handlesFrom 0 node).filter (tree.belongs place) := by
    intro member
    obtain ⟨other, same, -, other_lt⟩ := mem_handlesFrom.mp (List.mem_filter.mp member).1
    have := Int.ofNat_inj.mp same
    omega
  have count_eq : ((handlesFrom 0 node).filter (tree.belongs place)).length =
      (List.range node).countP fun other : Nat => tree.belongs place other := by
    rw [← List.countP_eq_length_filter, handlesFrom, List.countP_map, ← List.range_eq_range']
    rfl
  rw [eval_indexOf anonymous, scope_eq]
  simp only [bind, Except.bind, fills.numbering_eq_belongs nested (by omega) isRoot, split,
    Numbering.get?_ofList new, count_eq]
  rfl

end Decl.Fills

end BinaryName
