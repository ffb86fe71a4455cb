import BinaryName.Proofs.Decl.Grammar
import BinaryName.Proofs.Tree.Lineage

/-!
# How kinds are nested

In a file that follows the grammar each kind is held by one that may hold it, so the kinds above a
node come in order: code first, then classes, then the package and the file.  What a function or
lambda is among the nodes around it can be read off this order.
-/

namespace BinaryName

/-- Declarations of the one kind may hold those of the other. -/
def Kind.holds : Kind → Kind → Bool
  | .file, .package | .file, .klass | .file, .function => true
  | .package, .klass | .package, .function => true
  | .klass, .klass | .klass, .function => true
  | .function, .function | .function, .lambda => true
  | .lambda, .function | .lambda, .lambda => true
  | _, _ => false

theorem Kind.isContainer_of_holds {kind parent : Kind} (holds : parent.holds kind = true)
    (container : kind.isContainer = true) : parent.isContainer = true := by
  cases kind <;> cases parent <;> first | rfl | contradiction

/-- Code holds nothing but code. -/
theorem Kind.declares_of_holds {kind parent : Kind} (holds : parent.holds kind = true)
    (declares : kind.isContainer = true ∨ kind = .klass) :
    parent.isContainer = true ∨ parent = .klass := by
  cases kind <;> cases parent <;> simp [isContainer] at declares ⊢ <;> contradiction

/-- A file or package holds its package, functions and classes. -/
theorem Kind.klass_or_function_of_holds {kind parent : Kind} (holds : parent.holds kind = true)
    (container : parent.isContainer = true) (inner : kind.isContainer = false) :
    kind = .klass ∨ kind = .function := by
  cases kind <;> cases parent <;> first | exact .inl rfl | exact .inr rfl | contradiction

namespace Lineage

/-- Each kind is held by the next one, and the outermost is a file. -/
inductive Nested : List Kind → Prop
  /-- A file is in nothing. -/
  | file : Nested [.file]
  /-- A declaration is in one that may hold it. -/
  | held {kind parent : Kind} {above : List Kind} (holds : parent.holds kind = true)
      (around : Nested (parent :: above)) : Nested (kind :: parent :: above)

variable {kind : Kind} {line above found : List Kind}

theorem Nested.admits_code (nested : Nested (kind :: above))
    (code : kind = .function ∨ kind = .lambda) :
    ∀ inner, inner = .function ∨ inner = .lambda → Nested (inner :: kind :: above) := by
  intro inner inner_code
  refine .held ?_ nested
  rcases code with rfl | rfl <;> rcases inner_code with rfl | rfl <;> rfl

/-- Nothing holds a plain tag. -/
theorem Nested.not_plain {tag : String} : ¬Nested (.unknown tag :: above) := by
  rintro (_ | ⟨holds, -⟩)
  unfold Kind.holds at holds
  split at holds <;> contradiction

theorem Nested.admits_members (nested : Nested (kind :: above))
    (declares : kind.isContainer = true ∨ kind = .klass) :
    ∀ inner, inner = .klass ∨ inner = .function → Nested (inner :: kind :: above) := by
  intro inner member
  refine .held ?_ nested
  cases kind with
  | file | package | klass => rcases member with rfl | rfl <;> rfl
  | function | lambda => simp [Kind.isContainer] at declares
  | unknown tag => exact absurd nested Nested.not_plain

theorem Nested.eq_file (nested : Nested [kind]) : kind = .file := by
  cases nested
  rfl

theorem Nested.holds {parent : Kind} (nested : Nested (kind :: parent :: above)) :
    parent.holds kind = true := by
  cases nested with
  | held holds _ => exact holds

theorem Nested.nearest {test : List Kind → Bool} (nested : Nested line)
    (nearest_eq : nearest test line = some found) : Nested found := by
  induction nested with
  | file =>
      rw [Lineage.nearest, Lineage.nearest] at nearest_eq
      split at nearest_eq
      · rw [← Option.some.inj nearest_eq]
        exact .file
      · contradiction
  | held holds around ih =>
      rw [Lineage.nearest] at nearest_eq
      split at nearest_eq
      · rw [← Option.some.inj nearest_eq]
        exact .held holds around
      · exact ih nearest_eq

/-- A file and its package are in nothing else. -/
theorem Nested.isContainer_of_mem (nested : Nested (kind :: above))
    (container : kind.isContainer = true) : ∀ other ∈ above, other.isContainer = true := by
  induction above generalizing kind with
  | nil => simp
  | cons parent above ih =>
      cases nested with
      | held holds around =>
          have parent_container := Kind.isContainer_of_holds holds container
          exact List.forall_mem_cons.mpr ⟨parent_container, ih around parent_container⟩

/-- No function is around a file, package or class. -/
theorem Nested.function_not_mem (nested : Nested (kind :: above))
    (declares : kind.isContainer = true ∨ kind = .klass) : .function ∉ kind :: above := by
  have other : ∀ {kind : Kind}, kind.isContainer = true ∨ kind = .klass → .function ≠ kind := by
    rintro _ declares rfl
    simp [Kind.isContainer] at declares
  induction above generalizing kind with
  | nil => simpa using other declares
  | cons parent above ih =>
      cases nested with
      | held holds around =>
          have parent_declares := Kind.declares_of_holds holds declares
          rw [List.mem_cons, not_or]
          exact ⟨other declares, ih around parent_declares⟩

/-- Everything outside the file and its package is in a top-level declaration, or is one. -/
theorem Nested.exists_topLevel (nested : Nested (kind :: above))
    (inner : kind.isContainer = false) :
    ∃ top, Lineage.nearest isTopLevel (kind :: above) = some top := by
  induction above generalizing kind with
  | nil => cases nested; simp [Kind.isContainer] at inner
  | cons parent above ih =>
      cases nested with
      | held holds around =>
          rw [Lineage.nearest]
          cases top : isTopLevel (kind :: parent :: above) with
          | true => exact ⟨_, rfl⟩
          | false =>
              have parent_inner : parent.isContainer = false := by
                rw [Bool.eq_false_iff]
                intro container
                rcases Kind.klass_or_function_of_holds holds container inner with rfl | rfl <;>
                  simp [isTopLevel, Role.fits, container] at top
              exact ih around parent_inner

theorem Nested.not_topLevelFunction (nested : Nested line) (counted : isAnonymous line = true) :
    Role.topLevelFunction.fits line = false := by
  rw [Bool.eq_false_iff]
  intro top
  cases nested with
  | file => simp [Role.fits] at top
  | @held kind parent above holds around =>
      rw [Role.fits, Bool.and_eq_true, List.head?_cons, Option.any_some] at top
      have outside := around.function_not_mem (Or.inl top.2)
      simp_all [isAnonymous, Role.fits]

/-- Nothing that is counted is a top-level declaration. -/
theorem Nested.not_isTopLevel (nested : Nested line) (counted : isAnonymous line = true) :
    isTopLevel line = false := by
  rw [isTopLevel, not_topLevelClass_of_isAnonymous counted, nested.not_topLevelFunction counted]
  rfl

/-- Nothing that is counted has a name for others to extend. -/
theorem Nested.not_isAnonymous (nested : Nested line) (base : isBase line = true) :
    isAnonymous line = false := by
  rw [Bool.eq_false_iff]
  intro counted
  rw [isBase, nested.not_topLevelFunction counted, Bool.false_or, Bool.or_eq_true,
    beq_iff_eq] at base
  cases nested with
  | file => simp [Role.fits] at base
  | @held kind parent above holds around =>
      rcases base with klass | member
      · simp_all [isAnonymous, Role.fits]
      · rw [Role.fits, Bool.and_eq_true, List.head?_cons, beq_iff_eq, beq_iff_eq] at member
        have outside := around.function_not_mem (Or.inr (Option.some.inj member.2))
        simp_all [isAnonymous, Role.fits]

end Lineage

/-! ## Trees of grammatical files -/

/-- The kinds above each node are nested. -/
def ScopeTree.WellNested (tree : ScopeTree) : Prop :=
  ∀ node : Nat, node < tree.size → Lineage.Nested (tree.lineage node)

namespace ScopeTree

variable {tree : ScopeTree} {node parent : Nat}

/-- Only a file has no parent. -/
theorem WellNested.lineage_of_root (nested : tree.WellNested) (ordered : tree.Ordered)
    (inside : node < tree.size) (root_eq : tree.parent (node : Int) = .ok none) :
    tree.lineage node = [.file] := by
  have line := nested node inside
  rw [ScopeTree.lineage_of_root ordered inside root_eq] at line ⊢
  rw [line.eq_file]

/-- The kind of a node is one that its parent may hold. -/
theorem WellNested.lineage_of_parent (nested : tree.WellNested) (ordered : tree.Ordered)
    (inside : node < tree.size) (parent_lt : parent < node)
    (parent_eq : tree.parent (node : Int) = .ok (some (parent : Int))) :
    ∃ (kind outer : Kind) (above : List Kind), tree.lineage node = kind :: outer :: above ∧
      tree.lineage parent = outer :: above ∧ outer.holds kind = true := by
  have parent_inside : parent < tree.size := by omega
  obtain ⟨above, parent_line⟩ := List.head?_eq_some_iff.mp (head?_lineage ordered parent_inside)
  have line := nested node inside
  rw [ScopeTree.lineage_of_parent ordered inside parent_eq, parent_line] at line ⊢
  exact ⟨_, _, above, rfl, rfl, line.holds⟩

end ScopeTree

namespace Decl

open Lineage

variable {tree : ScopeTree}

mutual

theorem nested_of_isCode (ordered : tree.Ordered) {parent start node : Nat}
    (admits : ∀ kind, kind = .function ∨ kind = .lambda → Nested (kind :: tree.lineage parent)) :
    ∀ decl : Decl, decl.IsCode → decl.Planted tree (some parent) start → start ≤ node →
      node < start + decl.count → Nested (tree.lineage node)
  | .declare head children, code, planted, le, lt => by
      have line := planted.lineage_eq ordered
      have kind_code : head.kind = .function ∨ head.kind = .lambda := code.1.imp And.left id
      have nested := admits head.kind kind_code
      by_cases first : node = start
      · rwa [first, line]
      · have inner_admits := nested.admits_code kind_code
        rw [← line] at inner_admits
        rw [count] at lt
        exact nested_of_areCode ordered inner_admits children code.2 planted.below (by omega)
          (by omega)
  | .foreign _, code, _, _, _ => code.elim

theorem nested_of_areCode (ordered : tree.Ordered) {parent start node : Nat}
    (admits : ∀ kind, kind = .function ∨ kind = .lambda → Nested (kind :: tree.lineage parent)) :
    ∀ decls : List Decl, AreCode decls → PlantedAll tree parent start decls → start ≤ node →
      node < start + countAll decls → Nested (tree.lineage node)
  | [], _, _, le, lt => by
      rw [countAll] at lt
      omega
  | decl :: rest, code, planted, le, lt => by
      rw [countAll] at lt
      by_cases inFirst : node < start + decl.count
      · exact nested_of_isCode ordered admits decl code.1 planted.first le inFirst
      · exact nested_of_areCode ordered admits rest code.2 planted.rest (by omega) (by omega)

end

mutual

theorem nested_of_isMember (ordered : tree.Ordered) {parent start node : Nat}
    (admits : ∀ kind, kind = .klass ∨ kind = .function → Nested (kind :: tree.lineage parent)) :
    ∀ decl : Decl, decl.IsMember → decl.Planted tree (some parent) start → start ≤ node →
      node < start + decl.count → Nested (tree.lineage node)
  | .declare head children, sound, planted, le, lt => by
      have line := planted.lineage_eq ordered
      have nested := admits head.kind (sound.2.imp And.left And.left)
      by_cases first : node = start
      · rwa [first, line]
      · rw [count] at lt
        rcases sound.2 with ⟨klass, members⟩ | ⟨function, code⟩
        · have inner_admits := nested.admits_members (Or.inr klass)
          rw [← line] at inner_admits
          exact nested_of_areMembers ordered inner_admits children members planted.below (by omega)
            (by omega)
        · have inner_admits := nested.admits_code (Or.inl function)
          rw [← line] at inner_admits
          exact nested_of_areCode ordered inner_admits children code planted.below (by omega)
            (by omega)
  | .foreign _, sound, _, _, _ => sound.elim

theorem nested_of_areMembers (ordered : tree.Ordered) {parent start node : Nat}
    (admits : ∀ kind, kind = .klass ∨ kind = .function → Nested (kind :: tree.lineage parent)) :
    ∀ decls : List Decl, AreMembers decls → PlantedAll tree parent start decls → start ≤ node →
      node < start + countAll decls → Nested (tree.lineage node)
  | [], _, _, le, lt => by
      rw [countAll] at lt
      omega
  | decl :: rest, sound, planted, le, lt => by
      rw [countAll] at lt
      by_cases inFirst : node < start + decl.count
      · exact nested_of_isMember ordered admits decl sound.1 planted.first le inFirst
      · exact nested_of_areMembers ordered admits rest sound.2 planted.rest (by omega) (by omega)

end

/-- The kinds in the tree of a grammatical file are nested. -/
theorem Grammatical.wellNested {decl : Decl} (grammatical : decl.Grammatical)
    (fills : decl.Fills tree) : tree.WellNested := by
  have ordered := fills.ordered
  have size_eq := fills.size_eq
  intro node inside
  cases grammatical with
  | @bare file members isFile _ sound _ =>
      have line := fills.lineage_root
      rw [isFile] at line
      have admits := Nested.file.admits_members (Or.inl rfl)
      rw [← line] at admits
      rw [count] at size_eq
      by_cases first : node = 0
      · rw [first, line]
        exact .file
      · exact nested_of_areMembers ordered admits members sound fills.planted.below (by omega)
          (by omega)
  | @packaged file package members isFile _ isPackage _ sound _ =>
      have planted := fills.planted.below.first
      have root_line := fills.lineage_root
      have line := planted.lineage_eq ordered
      rw [root_line, isFile, isPackage] at line
      have nested : Nested [.package, .file] := .held rfl .file
      have admits := nested.admits_members (Or.inl rfl)
      rw [← line] at admits
      rw [count, countAll, countAll, count] at size_eq
      by_cases first : node = 0
      · rw [first, root_line, isFile]
        exact .file
      · by_cases second : node = 1
        · rw [second, line]
          exact nested
        · exact nested_of_areMembers ordered admits members sound planted.below (by omega)
            (by omega)

end Decl

end BinaryName
