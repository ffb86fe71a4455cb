import BinaryName.Cache.Numberings
import BinaryName.Proofs.Cache.Transparency
import BinaryName.Proofs.Naming.Nameable
import BinaryName.Proofs.Naming.Rules

/-!
# Which nodes have names

A node has a name if its lineage says so.  A numbering fails a node of its scope in one way only:
the walk below the file of a top-level function passes a top-level class by, and the function is in
it.
-/

namespace BinaryName

/-! ## What a scope misses -/

namespace Decl.Fills

open ScopeTree

variable {whole nest : Decl} {tree : ScopeTree} {above : Option Nat} {root node top : Nat}

/-- A scope has a node that it does not skip if it has the top-level declaration around it. -/
theorem mem_kept_iff_top (fills : whole.Fills tree) (planted : nest.Planted tree above root)
    (root_le : root ≤ top) (inside : node < tree.size)
    (nearest_eq : tree.nearestAbove tree.isTopLevel (node : Int) = .ok (some (top : Int)))
    (unskipped : tree.passesBy root node = false) :
    (node : Int) ∈ nest.kept (tree.passesBy root) root ↔
      (top : Int) ∈ nest.kept (tree.passesBy root) root := by
  have ordered := fills.ordered
  -- Between the node and the top-level declaration there is nothing that the scope skips.
  have between : ∀ node parent : Nat, node < tree.size → top ≤ parent → parent < node →
      tree.parent (node : Int) = .ok (some (parent : Int)) →
      Lineage.isTopLevel (tree.lineage node) = false →
      ((parent : Int) ∈ nest.kept (tree.passesBy root) root ↔
        (top : Int) ∈ nest.kept (tree.passesBy root) root) →
      ((node : Int) ∈ nest.kept (tree.passesBy root) root ↔
        (top : Int) ∈ nest.kept (tree.passesBy root) root) := by
    intro node parent inside top_le parent_lt parent_eq below parent_iff
    rw [fills.mem_kept_iff planted inside parent_eq (by omega), parent_iff,
      passesBy_of_not_topLevel _ below]
    simp
  rcases ordered node inside with root_eq | ⟨parent, parent_lt, parent_eq⟩
  · simp [nearestAbove_of_root _ root_eq] at nearest_eq
  · rw [nearestAbove_of_parent _ parent_eq] at nearest_eq
    obtain ⟨top_le, parent_iff⟩ := (judges_isTopLevel ordered).nearestFrom_induction ordered
      Iff.rfl between (by omega : parent < tree.size) nearest_eq
    rw [fills.mem_kept_iff planted inside parent_eq (by omega), parent_iff, unskipped]
    simp

/-- The scope of a file has what is in the file and not hidden from it. -/
theorem mem_kept_iff_hidden (fills : whole.Fills tree) (planted : nest.Planted tree above root)
    (file : (tree.lineage root).head? = some .file) (inside : node < tree.size)
    (nearest_eq : tree.nearestFrom (tree.hasKind .file) (node : Int) = .ok (some (root : Int))) :
    (node : Int) ∈ nest.kept (tree.passesBy root) root ↔
      Lineage.hidden (tree.lineage node) = false := by
  have ordered := fills.ordered
  obtain ⟨above_root, root_line⟩ := List.head?_eq_some_iff.mp file
  have first : (root : Int) ∈ nest.kept (tree.passesBy root) root ↔
      Lineage.hidden (tree.lineage root) = false := by
    rw [root_line]
    simpa [Lineage.hidden] using mem_kept_first planted
  refine ((judges_hasKind ordered .file).nearestFrom_induction
    (motive := fun node => (node : Int) ∈ nest.kept (tree.passesBy root) root ↔
      Lineage.hidden (tree.lineage node) = false) ordered first ?_ inside nearest_eq).2
  intro node parent inside root_le parent_lt parent_eq other parent_iff
  have passes_eq : tree.passesBy root node = Role.topLevelClass.fits (tree.lineage node) := by
    rw [passesBy, file, beq_self_eq_true, Bool.true_and]
  rw [fills.mem_kept_iff planted inside parent_eq (by omega), passes_eq, parent_iff]
  rw [lineage_of_parent ordered inside parent_eq] at other ⊢
  have not_file : tree.records[node].kind ≠ .file := by simpa using other
  simp [Lineage.hidden, not_file, and_comm]

/-- The scope of a node has the node unless the top-level function around it is hidden. -/
theorem mem_kept_iff_not_missed (fills : whole.Fills tree) (planted : nest.Planted tree above root)
    (inside : node < tree.size) (counted : Lineage.isAnonymous (tree.lineage node) = true)
    (nearest_eq : tree.nearestAbove tree.isTopLevel (node : Int) = .ok (some (top : Int)))
    (scopes : tree.Scopes top (root : Int)) :
    (node : Int) ∈ nest.kept (tree.passesBy root) root ↔ ¬Lineage.Missed (tree.lineage node) := by
  have ordered := fills.ordered
  obtain ⟨top_lt, -, line⟩ :=
    (judges_isTopLevel ordered).of_nearestAbove_natCast ordered inside nearest_eq
  have missed_iff : Lineage.Missed (tree.lineage node) ↔
      Role.topLevelFunction.fits (tree.lineage top) = true ∧
        Lineage.hidden (tree.lineage top).tail = true := by
    simp [Lineage.Missed, line]
  have unskipped : tree.passesBy root node = false :=
    passesBy_of_not_topLevelClass _ (Lineage.not_topLevelClass_of_isAnonymous counted)
  rcases scopes with ⟨klass, root_eq⟩ | ⟨function, file_eq⟩
  · obtain rfl : root = top := Int.ofNat_inj.mp root_eq
    have not_function : Role.topLevelFunction.fits (tree.lineage root) = false :=
      Role.not_fits_of_fits klass (by decide)
    rw [fills.mem_kept_iff_top planted (Nat.le_refl _) inside nearest_eq unskipped, missed_iff,
      not_function]
    simpa using mem_kept_first planted
  · have top_inside : top < tree.size := by omega
    obtain ⟨root_lt, file, -⟩ :=
      (judges_hasKind ordered .file).of_nearestAbove_natCast ordered top_inside file_eq
    have not_klass : Role.topLevelClass.fits (tree.lineage top) = false :=
      Role.not_fits_of_fits function (by decide)
    have top_unskipped : tree.passesBy root top = false := passesBy_of_not_topLevelClass _ not_klass
    rw [fills.mem_kept_iff_top planted (Nat.le_of_lt root_lt) inside nearest_eq unskipped,
      missed_iff]
    obtain ⟨parent, parent_lt, parent_eq, top_line⟩ :=
      exists_parent_of_fits ordered top_inside function
    rw [nearestAbove_of_parent _ parent_eq] at file_eq
    rw [fills.mem_kept_iff planted top_inside parent_eq (by omega), top_unskipped,
      fills.mem_kept_iff_hidden planted (beq_iff_eq.mp file) (by omega) file_eq, function, top_line,
      List.tail_cons]
    simp

/-- The root of a scope is a node of the tree. -/
theorem exists_place_of_scopeOf (ordered : tree.Ordered) (inside : node < tree.size) {root : Handle}
    (scope_eq : tree.scopeOf (node : Int) = .ok root) :
    ∃ place : Nat, root = place ∧ place < tree.size := by
  obtain ⟨top, nearest_eq, scopes⟩ := (scopeOf_eq_ok_iff ordered inside).mp scope_eq
  obtain ⟨top_lt, -, -⟩ :=
    (judges_isTopLevel ordered).of_nearestAbove_natCast ordered inside nearest_eq
  rcases scopes with ⟨-, root_eq⟩ | ⟨-, file_eq⟩
  · exact ⟨top, root_eq, by omega⟩
  · obtain ⟨place, root_eq, place_lt, -⟩ :=
      (judges_hasKind ordered .file).of_nearestAbove ordered (by omega) file_eq
    exact ⟨place, root_eq, by omega⟩

/-- The scope of a node of a tree that has been laid out can be numbered. -/
theorem exists_numbering_of_scopeOf (fills : whole.Fills tree) (inside : node < tree.size)
    {root : Handle} (scope_eq : tree.scopeOf (node : Int) = .ok root) :
    ∃ made, tree.numbering root = .ok made := by
  obtain ⟨place, rfl, place_lt⟩ := exists_place_of_scopeOf fills.ordered inside scope_eq
  obtain ⟨nest, above, planted, within⟩ := fills.exists_planted_at place_lt
  exact ⟨_, fills.numbering_eq planted within⟩

theorem eval_indexOf_of_scopeOf (fills : whole.Fills tree) (inside : node < tree.size)
    (counted : Lineage.isAnonymous (tree.lineage node) = true) {root : Handle}
    (scope_eq : tree.scopeOf (node : Int) = .ok root) :
    (∃ index, (tree.indexOf node).eval tree = .ok index) ∧ ¬Lineage.Missed (tree.lineage node) ∨
      (tree.indexOf node).eval tree = tree.refuse node .unreachable node ∧
        Lineage.Missed (tree.lineage node) := by
  have ordered := fills.ordered
  obtain ⟨place, rfl, place_lt⟩ := exists_place_of_scopeOf ordered inside scope_eq
  obtain ⟨top, nearest_eq, scopes⟩ := (scopeOf_eq_ok_iff ordered inside).mp scope_eq
  obtain ⟨nest, above, planted, within⟩ := fills.exists_planted_at place_lt
  have anonymous : tree.isAnonymous (node : Int) = .ok true :=
    (judges_isAnonymous ordered).of_verdict inside counted
  have member_iff : (node : Int) ∈ (nest.kept (tree.passesBy place) place).filter tree.numbers ↔
      ¬Lineage.Missed (tree.lineage node) := by
    rw [List.mem_filter, numbers, counted,
      fills.mem_kept_iff_not_missed planted inside counted nearest_eq scopes]
    simp
  rw [← Numbering.isSome_get?_ofList] at member_iff
  rw [eval_indexOf anonymous, scope_eq]
  simp only [bind, Except.bind, fills.numbering_eq planted within]
  cases found : (Numbering.ofList
      ((nest.kept (tree.passesBy place) place).filter tree.numbers)).get? (node : Int) with
  | some index => exact Or.inl ⟨⟨index, rfl⟩, member_iff.mp (by rw [found]; rfl)⟩
  | none =>
      refine Or.inr ⟨rfl, Classical.not_not.mp fun reached => ?_⟩
      have isSome := member_iff.mpr reached
      simp [found] at isSome

/-! ## Names -/

theorem named (fills : whole.Fills tree) : tree.Named := by
  intro node inside not_lambda
  obtain ⟨head, children, above, planted, -⟩ := fills.exists_declared_at inside
  cases name_eq : head.name with
  | none =>
      have lambda : head.kind = .lambda := planted.2.1 name_eq
      rw [planted.kind_eq, lambda] at not_lambda
      exact absurd rfl not_lambda
  | some name => exact ⟨name, by rw [planted.name_eq, name_eq]⟩

theorem exists_ofClass_iff (fills : whole.Fills tree) (inside : node < tree.size)
    (klass : (tree.lineage node).head? = some .klass) :
    (∃ resolution, Resolution.ofClass tree (node : Int) = .ok resolution) ↔
      Lineage.Nameable (tree.lineage node) := by
  have ordered := fills.ordered
  induction node using Nat.strongRecOn with
  | ind node ih =>
      have kind_eq := kind_of_head? ordered inside klass
      obtain ⟨name, name_eq⟩ := fills.named node inside (by simp [kind_eq])
      rcases lineage_cases ordered inside with
        ⟨root_eq, line⟩ | ⟨parent, parent_lt, parent_eq, line⟩
      · have kind : tree.records[node].kind = .klass := by simpa [line] using klass
        rw [line, kind, Lineage.nameable_klass_iff]
        simp [ofClass_eq_ok_iff (classChain_of_root kind_eq root_eq), holder, root_eq,
          not_refuse, bind, Except.bind]
      · have parent_inside : parent < tree.size := by omega
        have kind : tree.records[node].kind = .klass := by simpa [line] using klass
        have parent_kind := kind_natCast tree parent_inside
        have parent_head := head?_lineage ordered parent_inside
        obtain ⟨rest, parent_line⟩ := List.head?_eq_some_iff.mp parent_head
        by_cases nested : tree.records[parent].kind = .klass
        · rw [nested] at parent_kind
          have outer_iff : (∃ outer, Resolution.ofClass tree (parent : Int) = .ok outer) ↔
              Lineage.Nameable (tree.lineage parent) :=
            ih parent parent_lt parent_inside (by rw [parent_head, nested])
          have nested_iff := fun resolution => @ofClass_nested_iff tree ordered.loopless node parent
            kind_eq parent_eq parent_kind resolution
          simp only [nested_iff, name_eq]
          rw [line, kind, parent_line, nested, Lineage.nameable_klass_iff]
          rw [parent_line, nested, Lineage.nameable_klass_iff] at outer_iff
          simp only [List.dropWhile_cons, beq_self_eq_true, if_true, ← outer_iff]
          constructor
          · rintro ⟨_, outer, _, outer_eq, -⟩
            exact ⟨outer, outer_eq⟩
          · rintro ⟨outer, outer_eq⟩
            exact ⟨_, outer, name, outer_eq, rfl, rfl⟩
        · obtain ⟨path, path_eq⟩ := exists_packageAround ordered fills.named inside
          simp only [ofClass_outermost_iff ordered.loopless kind_eq parent_eq parent_kind nested
            path_eq name_eq]
          rw [line, kind, parent_line, Lineage.nameable_klass_iff]
          simp [nested]

/-- Below a base with a name there is a scope. -/
theorem exists_scopeOf (fills : whole.Fills tree) (inside : node < tree.size) {base : List Kind}
    (nearest_eq : Lineage.nearest Lineage.isBase (tree.lineage node).tail = some base)
    (nameable : Lineage.Nameable base) :
    ∃ root, tree.scopeOf (node : Int) = .ok root := by
  have ordered := fills.ordered
  obtain ⟨top, top_eq, fits⟩ :=
    Lineage.exists_topLevel_of_base (Lineage.passes_of_nearest nearest_eq) nameable
  rw [← Lineage.nearest_of_weaker Lineage.isBase_of_isTopLevel nearest_eq] at top_eq
  rcases (judges_isTopLevel ordered).nearestAbove ordered inside with
    ⟨-, no_line⟩ | ⟨place, place_lt, place_eq, line⟩
  · simp [top_eq] at no_line
  · rw [top_eq] at line
    obtain rfl := Option.some.inj line
    have place_inside : place < tree.size := by omega
    rcases fits with klass | ⟨function, same⟩
    · exact ⟨place, (scopeOf_eq_ok_iff ordered inside).mpr ⟨place, place_eq, Or.inl ⟨klass, rfl⟩⟩⟩
    · rw [← same, Lineage.nameable_topLevel_iff function, ← List.contains_iff_mem,
        ← Lineage.isSome_nearest_kind] at nameable
      rcases (judges_hasKind ordered .file).nearestAbove ordered place_inside with
        ⟨-, no_file⟩ | ⟨file, -, file_eq, -⟩
      · simp [no_file] at nameable
      · exact ⟨file,
          (scopeOf_eq_ok_iff ordered inside).mpr ⟨place, place_eq, Or.inr ⟨function, file_eq⟩⟩⟩

theorem exists_anonymous_iff (fills : whole.Fills tree) (inside : node < tree.size)
    (counted : Lineage.isAnonymous (tree.lineage node) = true)
    (below : Role.topLevelFunction.fits (tree.lineage node) = false)
    (outer_iff : ∀ base : Nat, base < node →
      ((∃ outer, (tree.resolve (base : Int)).eval tree = .ok outer) ↔
        Lineage.Nameable (tree.lineage base))) :
    (∃ resolution, (tree.resolve (node : Int)).eval tree = .ok resolution) ↔
      Lineage.Nameable (tree.lineage node) := by
  have ordered := fills.ordered
  have anonymous : tree.isAnonymous (node : Int) = .ok true :=
    (judges_isAnonymous ordered).of_verdict inside counted
  simp only [eval_resolve_anonymous ordered inside counted below]
  rw [Lineage.nameable_anonymous_iff counted below]
  constructor
  · rintro ⟨_, base, index, outer, nearest_eq, index_eq, outer_eq, -⟩
    obtain ⟨place, rfl, place_lt, isBase, line⟩ :=
      (judges_isBase ordered).of_nearestAbove ordered inside nearest_eq
    have nameable := (outer_iff place place_lt).mp ⟨outer, outer_eq⟩
    refine ⟨_, line, nameable, ?_⟩
    rw [← Lineage.missed_iff_of_base line nameable]
    obtain ⟨root, scope_eq⟩ := fills.exists_scopeOf inside line nameable
    rcases fills.eval_indexOf_of_scopeOf inside counted scope_eq with ⟨-, met⟩ | ⟨refused, -⟩
    · exact met
    · exact absurd (refused.symm.trans index_eq) not_refuse
  · rintro ⟨base, line, nameable, met⟩
    rw [← Lineage.missed_iff_of_base line nameable] at met
    obtain ⟨root, scope_eq⟩ := fills.exists_scopeOf inside line nameable
    rcases (judges_isBase ordered).nearestAbove ordered inside with
      ⟨-, no_line⟩ | ⟨place, place_lt, place_eq, place_line⟩
    · simp [line] at no_line
    · rw [line] at place_line
      rw [Option.some.inj place_line] at nameable
      obtain ⟨outer, outer_eq⟩ := (outer_iff place place_lt).mpr nameable
      rcases fills.eval_indexOf_of_scopeOf inside counted scope_eq with
        ⟨⟨index, index_eq⟩, -⟩ | ⟨-, missed⟩
      · exact ⟨_, place, index, outer, place_eq, index_eq, outer_eq, rfl⟩
      · exact absurd missed met

theorem exists_member_iff (fills : whole.Fills tree) (inside : node < tree.size)
    (member : Role.memberFunction.fits (tree.lineage node) = true)
    (outside : Role.localFunction.fits (tree.lineage node) = false)
    (outer_iff : ∀ base : Nat, base < node →
      ((∃ outer, (tree.resolve (base : Int)).eval tree = .ok outer) ↔
        Lineage.Nameable (tree.lineage base))) :
    (∃ resolution, (tree.resolve (node : Int)).eval tree = .ok resolution) ↔
      Lineage.Nameable (tree.lineage node) := by
  have ordered := fills.ordered
  obtain ⟨parent, parent_lt, parent_eq, line⟩ := exists_parent_of_fits ordered inside member
  rw [Role.kind] at line
  obtain ⟨above, parent_line⟩ : ∃ above, tree.lineage parent = .klass :: above := by
    simp only [line, Role.fits, Bool.and_eq_true, beq_iff_eq] at member
    exact List.head?_eq_some_iff.mp member.2
  have clear : .function ∉ above := by
    simpa [line, parent_line, Role.fits, Role.kind] using outside
  have nameable_iff :
      Lineage.Nameable (tree.lineage node) ↔ Lineage.Nameable (tree.lineage parent) := by
    rw [line, parent_line]
    exact ⟨Lineage.nameable_klass_of_member, .memberFunction clear⟩
  rw [nameable_iff, ← outer_iff parent parent_lt]
  simp only [eval_resolve_member ordered inside member outside parent_eq]
  constructor
  · rintro ⟨_, outer, outer_eq, -⟩
    exact ⟨outer, outer_eq⟩
  · rintro ⟨outer, outer_eq⟩
    exact ⟨_, outer, outer_eq, rfl⟩

/-- A node has a name if its lineage says so. -/
theorem exists_resolution_iff (fills : whole.Fills tree) (inside : node < tree.size) :
    (∃ resolution, (tree.resolve (node : Int)).eval tree = .ok resolution) ↔
      Lineage.Nameable (tree.lineage node) := by
  have ordered := fills.ordered
  induction node using Nat.strongRecOn with
  | ind node ih =>
      by_cases klass : (tree.lineage node).head? = some .klass
      · rw [eval_resolve_klass (kind_of_head? ordered inside klass)]
        exact fills.exists_ofClass_iff inside klass
      cases top : Role.topLevelFunction.fits (tree.lineage node) with
      | true =>
          obtain ⟨path, path_eq⟩ := exists_packageAround ordered fills.named inside
          rw [Lineage.nameable_topLevel_iff top,
            ← exists_fileClassAround_iff ordered fills.named inside]
          simp only [eval_resolve_topLevel ordered inside top]
          constructor
          · rintro ⟨_, _, name, -, name_eq, -⟩
            exact ⟨name, name_eq⟩
          · rintro ⟨name, name_eq⟩
            exact ⟨_, path, name, path_eq, name_eq, rfl⟩
      | false =>
          cases counted : Lineage.isAnonymous (tree.lineage node) with
          | true =>
              exact fills.exists_anonymous_iff inside counted top fun base base_lt =>
                ih base base_lt (by omega)
          | false =>
              cases member : Role.memberFunction.fits (tree.lineage node) with
              | true =>
                  rw [Lineage.isAnonymous, Bool.or_eq_false_iff] at counted
                  exact fills.exists_member_iff inside member counted.2 fun base base_lt =>
                    ih base base_lt (by omega)
              | false =>
                  have unnamed := eval_resolve_of_misfit ordered inside klass top counted member
                  have not_nameable := Lineage.not_nameable_of_misfit klass top counted member
                  simp [unnamed, not_nameable]

theorem exists_caption (fills : whole.Fills tree) (inside : node < tree.size)
    (counted : Lineage.isAnonymous (tree.lineage node) = true) :
    ∃ caption, tree.caption (node : Int) = .ok caption := by
  have ordered := fills.ordered
  rw [Lineage.isAnonymous, Bool.or_eq_true, beq_iff_eq] at counted
  rcases counted with lambda | function
  · exact exists_caption_of_title (kind_of_head? ordered inside lambda) rfl
  · exact exists_caption_of_title (kind_of_head? ordered inside (Role.head?_of_fits function)) rfl

end Decl.Fills

/-- A lambda in a function of a package that is inside a class. -/
def hiddenLambda : Decl :=
  .declare (.unmarked .file "a.kt")
    [.declare (.unmarked .klass "A")
      [.declare (.unmarked .package "p")
        [.declare (.unmarked .function "f") [.declare (.unmarked .lambda none) []]]]]

/-- Its tree. -/
def hiddenTree : ScopeTree :=
  { records :=
      #[{ kind := .file, name := some "a.kt", parent := none, children := [1] },
        { kind := .klass, name := some "A", parent := some 0, children := [2] },
        { kind := .package, name := some "p", parent := some 1, children := [3] },
        { kind := .function, name := some "f", parent := some 2, children := [4] },
        { kind := .lambda, name := none, parent := some 3, children := [] }]
    size_pos := by decide
    parent_root := rfl }

theorem layout_hiddenLambda : hiddenLambda.layout = .ok (.ofTree hiddenTree) :=
  (Decl.layout_eq _).trans rfl

end BinaryName
