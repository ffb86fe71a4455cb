import BinaryName.Numbering
import BinaryName.Proofs.Tree.Expansion

/-!
# Closed trees

In a closed tree every handle has a record.  If nothing is above or below itself either, then no
test fails and no walk breaks.  Trees that have been laid out are like this.
-/

namespace BinaryName

namespace ScopeTree

/-- The handle has a record. -/
def Readable (tree : ScopeTree) (node : Handle) : Prop := (tree.position? node).isSome = true

instance (tree : ScopeTree) (node : Handle) : Decidable (tree.Readable node) :=
  inferInstanceAs (Decidable (_ = true))

/-- All handles of parents and children have records. -/
def Closed (tree : ScopeTree) : Prop :=
  ∀ record ∈ tree.records, (∀ parent ∈ record.parent, tree.Readable parent) ∧
    ∀ child ∈ record.children, tree.Readable child

instance (tree : ScopeTree) : Decidable tree.Closed :=
  inferInstanceAs (Decidable (∀ record ∈ tree.records, _))

variable {tree : ScopeTree} {node : Handle}

theorem exists_record (readable : tree.Readable node) :
    ∃ record ∈ tree.records, tree.record node = .ok record := by
  obtain ⟨position, position_eq⟩ := Option.isSome_iff_exists.mp readable
  exact ⟨tree.records[position], Array.getElem_mem position.isLt,
    record_eq_ok_iff.mpr ⟨position, position_eq, rfl⟩⟩

theorem mem_records_of_record {record : Record} (record_eq : tree.record node = .ok record) :
    record ∈ tree.records := by
  obtain ⟨position, -, rfl⟩ := record_eq_ok_iff.mp record_eq
  exact Array.getElem_mem position.isLt

theorem Closed.parent (closed : tree.Closed) {parent : Handle}
    (parent_eq : tree.parent node = .ok (some parent)) : tree.Readable parent := by
  obtain ⟨record, record_eq, named⟩ := map_eq_ok_iff.mp parent_eq
  exact (closed record (mem_records_of_record record_eq)).1 parent named

theorem Closed.children (closed : tree.Closed) {listed : List Handle}
    (children_eq : tree.children node = .ok listed) : ∀ child ∈ listed, tree.Readable child := by
  obtain ⟨record, record_eq, rfl⟩ := map_eq_ok_iff.mp children_eq
  exact (closed record (mem_records_of_record record_eq)).2

/-! ## Tests that do not fail -/

/-- The test does not fail on a node with a record. -/
def Total (tree : ScopeTree) (test : Test) : Prop :=
  ∀ node, tree.Readable node → ∃ passes, test node = .ok passes

theorem Total.either {first second : Test} (total : tree.Total first) (also : tree.Total second) :
    tree.Total (.either first second) := by
  intro node readable
  obtain ⟨passes, passes_eq⟩ := total node readable
  rw [Test.either, passes_eq]
  cases passes with
  | true => exact ⟨true, rfl⟩
  | false => exact also node readable

theorem exists_kind (readable : tree.Readable node) : ∃ kind, tree.kind node = .ok kind := by
  obtain ⟨record, -, record_eq⟩ := exists_record readable
  exact ⟨record.kind, by rw [kind, record_eq]; rfl⟩

theorem exists_parent (readable : tree.Readable node) : ∃ named, tree.parent node = .ok named := by
  obtain ⟨record, -, record_eq⟩ := exists_record readable
  exact ⟨record.parent, by rw [ScopeTree.parent, record_eq]; rfl⟩

theorem exists_children (readable : tree.Readable node) :
    ∃ listed, tree.children node = .ok listed := by
  obtain ⟨record, -, record_eq⟩ := exists_record readable
  exact ⟨record.children, by rw [ScopeTree.children, record_eq]; rfl⟩

theorem total_hasKind (wanted : Kind) : tree.Total (tree.hasKind wanted) := by
  intro node readable
  obtain ⟨kind, kind_eq⟩ := exists_kind readable
  exact ⟨kind == wanted, by rw [hasKind, kind_eq]; rfl⟩

theorem Closed.total_isPlaced (closed : tree.Closed) (wanted : Kind) (below : Kind → Bool) :
    tree.Total (tree.isPlaced wanted below) := by
  intro node readable
  obtain ⟨fits, fits_eq⟩ := total_hasKind wanted node readable
  obtain ⟨named, parent_eq⟩ := exists_parent readable
  rw [isPlaced, fits_eq, parentKind, parent_eq]
  cases fits with
  | false => exact ⟨false, rfl⟩
  | true =>
      cases named with
      | none => exact ⟨false, rfl⟩
      | some parent =>
          obtain ⟨kind, kind_eq⟩ := exists_kind (closed.parent parent_eq)
          exact ⟨below kind, by simp [kind_eq, bind, Except.bind, Functor.map, Except.map, pure,
            Except.pure]⟩

/-- A search upwards comes to a node or to the end. -/
theorem Closed.exists_nearestAbove (closed : tree.Closed) (loopless : Loopless tree.NamesParent)
    {test : Test} (total : tree.Total test) {node : Handle} (readable : tree.Readable node) :
    ∃ found, tree.nearestAbove test node = .ok found := by
  induction depth : tree.height tree.NamesParent node using Nat.strongRecOn generalizing node with
  | ind depth ih =>
      obtain ⟨named, parent_eq⟩ := exists_parent readable
      cases named with
      | none => exact ⟨none, nearestAbove_of_root test parent_eq⟩
      | some parent =>
          have parent_readable := closed.parent parent_eq
          have lower := height_parent_lt loopless parent_eq
          obtain ⟨passes, passes_eq⟩ := total parent parent_readable
          rw [nearestAbove_of_parent test parent_eq, nearestFrom_eq loopless, passes_eq]
          cases passes with
          | true => exact ⟨some parent, rfl⟩
          | false => exact ih _ (by omega) parent_readable rfl

theorem Closed.total_isInside (closed : tree.Closed) (loopless : Loopless tree.NamesParent)
    (wanted : Kind) : tree.Total (tree.isInside wanted) := by
  intro node readable
  obtain ⟨found, found_eq⟩ := closed.exists_nearestAbove loopless (total_hasKind wanted) readable
  exact ⟨found.isSome, by rw [isInside, found_eq]; rfl⟩

theorem Closed.total_plays (closed : tree.Closed) (loopless : Loopless tree.NamesParent)
    (role : Role) : tree.Total (tree.plays role) := by
  cases role with
  | topLevelClass => exact closed.total_isPlaced .klass Kind.isContainer
  | topLevelFunction => exact closed.total_isPlaced .function Kind.isContainer
  | memberFunction => exact closed.total_isPlaced .function (· == .klass)
  | localFunction =>
      intro node readable
      obtain ⟨fits, fits_eq⟩ := total_hasKind .function node readable
      simp only [plays, fits_eq]
      cases fits with
      | false => exact ⟨false, rfl⟩
      | true => exact closed.total_isInside loopless .function node readable

theorem Closed.total_isAnonymous (closed : tree.Closed) (loopless : Loopless tree.NamesParent) :
    tree.Total tree.isAnonymous :=
  (total_hasKind .lambda).either (closed.total_plays loopless .localFunction)

/-! ## Walks that do not break -/

theorem Closed.exists_successors (closed : tree.Closed) {skip : Test} (total : tree.Total skip)
    (readable : tree.Readable node) : ∃ next, tree.successors skip node = .ok next := by
  obtain ⟨listed, children_eq⟩ := exists_children readable
  have kept : ∀ nodes : List Handle, (∀ node ∈ nodes, tree.Readable node) →
      ∃ kept, unskipped skip nodes = .ok kept := by
    intro nodes each
    induction nodes with
    | nil => exact ⟨[], rfl⟩
    | cons node rest ih =>
        obtain ⟨first, others⟩ := List.forall_mem_cons.mp each
        obtain ⟨skipped, skipped_eq⟩ := total node first
        obtain ⟨kept, kept_eq⟩ := ih others
        exact ⟨if skipped then kept else node :: kept, by rw [unskipped, skipped_eq, kept_eq]; rfl⟩
  rw [successors, children_eq]
  exact kept listed (closed.children children_eq)

/-- The walk below a node visits nodes with records, and it comes to a stop. -/
theorem Closed.preorder_stops (closed : tree.Closed) (loopless : Loopless tree.ListsChild)
    {skip : Test} (total : tree.Total skip) {start : Handle} (readable : tree.Readable start) :
    (∀ node ∈ (tree.preorder skip start).visited, tree.Readable node) ∧
      (tree.preorder skip start).fault? = none := by
  have visited : ∀ node ∈ (tree.preorder skip start).visited, tree.Readable node := by
    apply descend_induction
    · intro node next _ next_eq other member
      obtain ⟨listed, children_eq, sublist⟩ := successors_among next_eq
      exact closed.children children_eq other (sublist.mem member)
    · simpa using readable
  refine ⟨visited, (preorder_expands loopless skip start).fault?_eq_none ?_⟩
  exact fun node member => closed.exists_successors total (visited node member)

/-- The walk of a scope visits nodes with records, and it comes to a stop. -/
theorem Closed.exists_scopeWalk (closed : tree.Closed) (acyclic : tree.Acyclic) {root : Handle}
    (readable : tree.Readable root) :
    ∃ walk, tree.scopeWalk root = .ok walk ∧ (∀ node ∈ walk.visited, tree.Readable node) ∧
      walk.fault? = none := by
  obtain ⟨file, file_eq⟩ := total_hasKind .file root readable
  rw [scopeWalk, file_eq]
  cases file with
  | true =>
      exact ⟨_, rfl, closed.preorder_stops acyclic.children
        (closed.total_plays acyclic.parents .topLevelClass) readable⟩
  | false =>
      exact ⟨_, rfl, closed.preorder_stops acyclic.children (fun _ _ => ⟨false, rfl⟩) readable⟩

end ScopeTree

/-! ## Trees that have been laid out -/

namespace Decl.Fills

variable {whole : Decl} {tree : ScopeTree}

theorem readable (node : Nat) (inside : node < tree.size) : tree.Readable (node : Int) := by
  rw [ScopeTree.Readable, tree.position?_natCast inside]
  rfl

/-- A node lists nodes after it. -/
theorem exists_place_of_children (fills : whole.Fills tree) {node : Nat} (inside : node < tree.size)
    {child : Handle} (member : child ∈ tree.records[node].children) :
    ∃ place : Nat, child = place ∧ node < place ∧ place < tree.size := by
  obtain ⟨head, children, above, planted, bound⟩ := fills.exists_declared_at inside
  have children_eq := planted.children_eq
  rw [ScopeTree.children, tree.record_natCast inside] at children_eq
  have listed_eq : tree.records[node].children = starts (node + 1) children :=
    Except.ok.inj children_eq
  rw [listed_eq] at member
  obtain ⟨place, rfl, le, lt⟩ := mem_starts member
  exact ⟨place, rfl, by omega, by omega⟩

theorem acyclic (fills : whole.Fills tree) : tree.Acyclic := by
  refine ⟨fills.ordered.loopless, loopless_of_measure (fun place => tree.size - place) ?_⟩
  rintro here there ⟨child, member, child_eq⟩
  obtain ⟨place, rfl, later, inside⟩ := fills.exists_place_of_children here.isLt member
  rw [tree.position?_natCast inside] at child_eq
  have same : place = there := congrArg Fin.val (Option.some.inj child_eq)
  have bound := here.isLt
  omega

theorem closed (fills : whole.Fills tree) : tree.Closed := by
  intro record member
  obtain ⟨node, inside, rfl⟩ := Array.mem_iff_getElem.mp member
  constructor
  · intro parent parent_eq
    have named : tree.parent (node : Int) = .ok tree.records[node].parent := by
      rw [ScopeTree.parent, tree.record_natCast inside]
      rfl
    rcases fills.ordered node inside with root_eq | ⟨above, above_lt, above_eq⟩
    · rw [named, Option.mem_def.mp parent_eq] at root_eq
      simp at root_eq
    · rw [named, Option.mem_def.mp parent_eq] at above_eq
      obtain rfl : parent = above := Option.some.inj (Except.ok.inj above_eq)
      exact readable above (Nat.lt_trans above_lt inside)
  · intro child child_member
    obtain ⟨place, rfl, -, place_lt⟩ := fills.exists_place_of_children inside child_member
    exact readable place place_lt

end Decl.Fills

end BinaryName
