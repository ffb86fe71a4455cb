import BinaryName.Proofs.Naming.Pass
import BinaryName.Proofs.Naming.Rules

/-!
# Surroundings

What a node is named by depends on what its parent hands on: code has an owner whose name it
extends, members have a class, and the members of a file or package have a path and share a class
for their functions.  A child is named accordingly, and hands on to its own children in turn.
-/

namespace BinaryName

namespace ScopeTree

variable {tree : ScopeTree} {node parent root : Nat} {owner : String}

/-- The node has the name. -/
def Names (tree : ScopeTree) (node : Handle) (name : String) : Prop :=
  ∃ resolution, (tree.resolve node).eval tree = .ok resolution ∧ resolution.name = name

/-- The node is named as the designation says, and it is counted if its name is that of an anonymous
class. -/
structure Designates (tree : ScopeTree) (node : Handle) (designation : Designation) : Prop where
  resolves : ∃ resolution, (tree.resolve node).eval tree = .ok resolution ∧
    resolution.name = designation.name ∧ resolution.rule = designation.rule
  counts : tree.numbers node = (designation.rule == .anonymous)

theorem Designates.names {node : Handle} {designation : Designation}
    (designates : tree.Designates node designation) : tree.Names node designation.name := by
  obtain ⟨resolution, resolution_eq, name_eq, -⟩ := designates.resolves
  exact ⟨resolution, resolution_eq, name_eq⟩

/-! ## Code -/

/-- Code directly below the parent extends the name of the owner, with the numbers of the scope of
the root. -/
structure AroundCode (tree : ScopeTree) (parent root : Nat) (owner : String) : Prop where
  code : (tree.lineage parent).head? = some .function ∨ (tree.lineage parent).head? = some .lambda
  inside : .function ∈ tree.lineage parent
  base : ∃ base, tree.nearestFrom tree.isBase (parent : Int) = .ok (some base) ∧
    tree.Names base owner
  scope : ∃ top : Nat, tree.nearestFrom tree.isTopLevel (parent : Int) = .ok (some (top : Int)) ∧
    tree.Scopes top (root : Int)

theorem lineage_of_code {kind : Kind} {above : List Kind} (code : kind = .function ∨ kind = .lambda)
    (around : above.head? = some .function ∨ above.head? = some .lambda)
    (inside : .function ∈ above) :
    Lineage.isAnonymous (kind :: above) = true ∧ Lineage.isTopLevel (kind :: above) = false ∧
      Lineage.isBase (kind :: above) = false := by
  rcases code with rfl | rfl <;> rcases around with head | head <;>
    simp [Lineage.isAnonymous, Lineage.isTopLevel, Lineage.isBase, Role.fits, head, inside,
      Kind.isContainer]

theorem AroundCode.child (around : tree.AroundCode parent root owner) (ordered : tree.Ordered)
    (inside : node < tree.size) (parent_eq : tree.parent (node : Int) = .ok (some (parent : Int)))
    {kind : Kind} (code : kind = .function ∨ kind = .lambda)
    (line : tree.lineage node = kind :: tree.lineage parent) :
    tree.AroundCode node root owner := by
  obtain ⟨-, not_top, not_base⟩ := lineage_of_code code around.code around.inside
  rw [← line] at not_top not_base
  refine ⟨?_, ?_, ?_, ?_⟩
  · rcases code with rfl | rfl
    · exact Or.inl (by rw [line]; rfl)
    · exact Or.inr (by rw [line]; rfl)
  · rw [line]
    exact List.mem_cons_of_mem _ around.inside
  · rw [(judges_isBase ordered).nearestFrom_of_fails ordered inside not_base,
      nearestAbove_of_parent _ parent_eq]
    exact around.base
  · rw [(judges_isTopLevel ordered).nearestFrom_of_fails ordered inside not_top,
      nearestAbove_of_parent _ parent_eq]
    exact around.scope

/-- Code extends the name of its owner by its place in the numbering. -/
theorem AroundCode.designates_child (around : tree.AroundCode parent root owner)
    (ordered : tree.Ordered)
    (inside : node < tree.size) (parent_eq : tree.parent (node : Int) = .ok (some (parent : Int)))
    {kind : Kind} (code : kind = .function ∨ kind = .lambda)
    (line : tree.lineage node = kind :: tree.lineage parent) {before after : List Handle}
    (numbering_eq : tree.numbering (root : Int) = .ok (.ofList (before ++ (node : Int) :: after)))
    (new : (node : Int) ∉ before) :
    tree.Designates node
      { name := owner ++ "$" ++ toString (before.length + 1), rule := .anonymous } := by
  obtain ⟨counted, not_top, -⟩ := lineage_of_code code around.code around.inside
  rw [← line] at counted not_top
  obtain ⟨base, base_eq, outer, outer_eq, owner_eq⟩ := around.base
  obtain ⟨top, top_eq, scopes⟩ := around.scope
  rw [← nearestAbove_of_parent _ parent_eq] at base_eq top_eq
  have scope_eq := (scopeOf_eq_ok_iff ordered inside).mpr ⟨top, top_eq, scopes⟩
  have index_eq : (tree.indexOf (node : Int)).eval tree = .ok (before.length + 1) := by
    rw [eval_indexOf ((judges_isAnonymous ordered).of_verdict inside counted), scope_eq]
    simp [bind, Except.bind, numbering_eq, Numbering.get?_ofList new, pure, Except.pure]
  rw [Lineage.isTopLevel, Bool.or_eq_false_iff] at not_top
  have resolved := (eval_resolve_anonymous ordered inside counted not_top.2).mpr
    ⟨base, before.length + 1, outer, base_eq, index_eq, outer_eq, rfl⟩
  exact ⟨⟨_, resolved, by rw [owner_eq], rfl⟩, counted⟩

/-! ## Members of classes -/

/-- Members directly below the parent are named by the owner, and code in them is numbered in the
scope of the root. -/
structure AroundMembers (tree : ScopeTree) (parent root : Nat) (owner : String) : Prop where
  klass : (tree.lineage parent).head? = some .klass
  outside : .function ∉ tree.lineage parent
  named : tree.Names parent owner
  scope : ∃ top : Nat, tree.nearestFrom tree.isTopLevel (parent : Int) = .ok (some (top : Int)) ∧
    tree.Scopes top (root : Int)

theorem lineage_of_member {kind : Kind} {above : List Kind}
    (member : kind = .klass ∨ kind = .function) (around : above.head? = some .klass)
    (outside : .function ∉ above) :
    Lineage.isAnonymous (kind :: above) = false ∧ Lineage.isTopLevel (kind :: above) = false ∧
      Lineage.isBase (kind :: above) = true := by
  rcases member with rfl | rfl <;>
    simp [Lineage.isAnonymous, Lineage.isTopLevel, Lineage.isBase, Role.fits, around, outside,
      Kind.isContainer]

theorem AroundMembers.klass_child (around : tree.AroundMembers parent root owner)
    (ordered : tree.Ordered) (inside : node < tree.size)
    (parent_eq : tree.parent (node : Int) = .ok (some (parent : Int)))
    (parent_inside : parent < tree.size) (line : tree.lineage node = .klass :: tree.lineage parent)
    {name : String} (name_eq : tree.name (node : Int) = .ok (some name)) :
    tree.Designates node { name := owner ++ "$" ++ name, rule := .nestedClass } ∧
      tree.AroundMembers node root (owner ++ "$" ++ name) := by
  obtain ⟨not_counted, not_top, -⟩ := lineage_of_member (Or.inl rfl) around.klass around.outside
  rw [← line] at not_counted not_top
  have head : (tree.lineage node).head? = some .klass := by rw [line]; rfl
  have klass := kind_of_head? ordered inside head
  have parent_klass := kind_of_head? ordered parent_inside around.klass
  have designates : tree.Designates node
      { name := owner ++ "$" ++ name, rule := .nestedClass } := by
    obtain ⟨outer, outer_eq, owner_eq⟩ := around.named
    rw [eval_resolve_klass parent_klass] at outer_eq
    have resolved := (ofClass_nested_iff ordered.loopless klass parent_eq parent_klass).mpr
      ⟨outer, name, outer_eq, name_eq, rfl⟩
    rw [← eval_resolve_klass klass] at resolved
    exact ⟨⟨_, resolved, by rw [owner_eq], rfl⟩, not_counted⟩
  refine ⟨designates, head, by simp [line, around.outside], designates.names, ?_⟩
  rw [(judges_isTopLevel ordered).nearestFrom_of_fails ordered inside not_top,
    nearestAbove_of_parent _ parent_eq]
  exact around.scope

theorem AroundMembers.function_child (around : tree.AroundMembers parent root owner)
    (ordered : tree.Ordered) (inside : node < tree.size)
    (parent_eq : tree.parent (node : Int) = .ok (some (parent : Int)))
    (line : tree.lineage node = .function :: tree.lineage parent) :
    tree.Designates node { name := owner, rule := .memberFunction } ∧
      tree.AroundCode node root owner := by
  obtain ⟨not_counted, not_top, base⟩ :=
    lineage_of_member (Or.inr rfl) around.klass around.outside
  rw [← line] at not_counted not_top base
  have member : Role.memberFunction.fits (tree.lineage node) = true := by
    simp [line, Role.fits, around.klass]
  have designates : tree.Designates node { name := owner, rule := .memberFunction } := by
    obtain ⟨outer, outer_eq, owner_eq⟩ := around.named
    have outside := not_counted
    rw [Lineage.isAnonymous, Bool.or_eq_false_iff] at outside
    have resolved := (eval_resolve_member ordered inside member outside.2 parent_eq).mpr
      ⟨outer, outer_eq, rfl⟩
    exact ⟨⟨_, resolved, owner_eq, rfl⟩, not_counted⟩
  refine ⟨designates, Or.inl (by rw [line]; rfl), by rw [line]; exact List.mem_cons_self, ?_, ?_⟩
  · exact ⟨node, (judges_isBase ordered).nearestFrom_of_passes ordered inside base,
      designates.names⟩
  · rw [(judges_isTopLevel ordered).nearestFrom_of_fails ordered inside not_top,
      nearestAbove_of_parent _ parent_eq]
    exact around.scope

/-! ## Members of files and packages -/

/-- Classes directly below the parent are named by the path, functions share a class in it.  Code in
the functions is numbered in the scope of the file, which is the root. -/
structure AroundTop (tree : ScopeTree) (parent root : Nat) (path facade : String) : Prop where
  container : (tree.lineage parent).head?.any Kind.isContainer = true
  outside : .function ∉ tree.lineage parent
  root_file : (tree.lineage root).head? = some .file
  package : ∀ node : Nat, node < tree.size → tree.parent (node : Int) = .ok (some (parent : Int)) →
    tree.packageAround (node : Int) = .ok path
  facade : ∀ node : Nat, node < tree.size → tree.parent (node : Int) = .ok (some (parent : Int)) →
    tree.fileClassAround (node : Int) = .ok facade
  file : tree.nearestFrom (tree.hasKind .file) (parent : Int) = .ok (some (root : Int))

variable {path facade : String}

theorem AroundTop.klass_child (around : tree.AroundTop parent root path facade)
    (ordered : tree.Ordered) (inside : node < tree.size)
    (parent_eq : tree.parent (node : Int) = .ok (some (parent : Int)))
    (parent_inside : parent < tree.size) (line : tree.lineage node = .klass :: tree.lineage parent)
    {name : String} (name_eq : tree.name (node : Int) = .ok (some name)) :
    tree.Designates node { name := path ++ name, rule := .topLevelClass } ∧
      tree.AroundMembers node node (path ++ name) := by
  have fits : Role.topLevelClass.fits (tree.lineage node) = true := by
    simp [line, Role.fits, around.container]
  have top : Lineage.isTopLevel (tree.lineage node) = true := by
    rw [Lineage.isTopLevel, fits, Bool.true_or]
  have head : (tree.lineage node).head? = some .klass := Role.head?_of_fits fits
  have klass := kind_of_head? ordered inside head
  have designates : tree.Designates node { name := path ++ name, rule := .topLevelClass } := by
    have container := around.container
    rw [head?_lineage ordered parent_inside, Option.any_some] at container
    have other : tree.records[parent].kind ≠ .klass := by
      intro klass
      simp [klass, Kind.isContainer] at container
    have resolved := (ofClass_outermost_iff ordered.loopless klass parent_eq
      (kind_natCast tree parent_inside) other (around.package node inside parent_eq)
      name_eq).mpr ⟨container, rfl⟩
    have not_counted : tree.numbers node = false := by
      simp [numbers, line, Lineage.isAnonymous, Role.fits]
    rw [← eval_resolve_klass klass] at resolved
    exact ⟨⟨_, resolved, rfl, rfl⟩, not_counted⟩
  refine ⟨designates, head, by simp [line, around.outside], designates.names, ?_⟩
  exact ⟨node, (judges_isTopLevel ordered).nearestFrom_of_passes ordered inside top,
    Or.inl ⟨fits, rfl⟩⟩

theorem AroundTop.function_child (around : tree.AroundTop parent root path facade)
    (ordered : tree.Ordered) (inside : node < tree.size)
    (parent_eq : tree.parent (node : Int) = .ok (some (parent : Int)))
    (line : tree.lineage node = .function :: tree.lineage parent) :
    tree.Designates node { name := path ++ facade, rule := .topLevelFunction } ∧
      tree.AroundCode node root (path ++ facade) := by
  have fits : Role.topLevelFunction.fits (tree.lineage node) = true := by
    simp [line, Role.fits, around.container]
  have top : Lineage.isTopLevel (tree.lineage node) = true := by
    rw [Lineage.isTopLevel, fits, Bool.or_true]
  have base : Lineage.isBase (tree.lineage node) = true := by
    rw [Lineage.isBase, fits, Bool.true_or, Bool.or_true]
  have designates : tree.Designates node
      { name := path ++ facade, rule := .topLevelFunction } := by
    have resolved := (eval_resolve_topLevel ordered inside fits).mpr
      ⟨path, facade, around.package node inside parent_eq, around.facade node inside parent_eq, rfl⟩
    have not_counted : tree.numbers node = false := by
      simp [numbers, line, Lineage.isAnonymous, Role.fits, around.outside]
    exact ⟨⟨_, resolved, rfl, rfl⟩, not_counted⟩
  refine ⟨designates, Or.inl (by rw [line]; rfl), by rw [line]; exact List.mem_cons_self, ?_, ?_⟩
  · exact ⟨node, (judges_isBase ordered).nearestFrom_of_passes ordered inside base,
      designates.names⟩
  · exact ⟨node, (judges_isTopLevel ordered).nearestFrom_of_passes ordered inside top,
      Or.inr ⟨fits, by rw [nearestAbove_of_parent _ parent_eq, around.file]⟩⟩

end ScopeTree

end BinaryName
