import BinaryName.Proofs.Cache.Transparency
import BinaryName.Proofs.Naming.Termination

/-!
# Naming a tree node by node

The names of all nodes of a tree are those of its nodes one by one.  Whatever the parents and
children say, the walk reads a node, has it named and goes on to its children, and so the first of
these steps that fails decides how the naming of the tree fails.
-/

namespace BinaryName

namespace ScopeTree

/-- What is done at a visited node, by itself: its record is read, it is named unless it is a file
or package, and its children are looked up. -/
def visitStep (tree : ScopeTree) (node : Handle) : Except Fault (Option String) := do
  if (← tree.kind node).isContainer then
    let _ ← tree.children node
    pure none
  else
    let name ← (tree.className node).outcome tree
    let _ ← tree.children node
    pure (some name)

/-- The node is neither a file nor a package. -/
def isNameable (tree : ScopeTree) : Test := fun node =>
  (tree.kind node).map fun kind => !kind.isContainer

/-- The names after the nodes of a list have been visited, each by itself. -/
def nameEach (tree : ScopeTree) (names : Register String) :
    List Handle → Except Fault (Register String)
  | [] => .ok names
  | node :: rest => do
      match ← tree.visitStep node with
      | none => tree.nameEach names rest
      | some name => tree.nameEach (names.put node name) rest

variable {tree : ScopeTree} {node : Handle}

theorem exists_children_of_kind {kind : Kind} (kind_eq : tree.kind node = .ok kind) :
    ∃ listed, tree.children node = .ok listed := by
  obtain ⟨record, record_eq, -⟩ := map_eq_ok_iff.mp kind_eq
  exact ⟨record.children, map_eq_ok_iff.mpr ⟨record, record_eq, rfl⟩⟩

theorem visitStep_of_error {fault : Fault} (failed : tree.kind node = .error fault) :
    tree.visitStep node = .error fault := by
  rw [visitStep, failed]
  rfl

theorem visitStep_of_container {kind : Kind} (kind_eq : tree.kind node = .ok kind)
    (container : kind.isContainer = true) : tree.visitStep node = .ok none := by
  obtain ⟨listed, children_eq⟩ := exists_children_of_kind kind_eq
  rw [visitStep, kind_eq, children_eq]
  simp [bind, Except.bind, container, pure, Except.pure]

/-- Where the record can be read, only the naming can fail. -/
theorem visitStep_of_nameable {kind : Kind} (kind_eq : tree.kind node = .ok kind)
    (nameable : kind.isContainer = false) :
    tree.visitStep node = some <$> (tree.className node).eval tree := by
  obtain ⟨listed, children_eq⟩ := exists_children_of_kind kind_eq
  rw [visitStep, kind_eq, children_eq, Inquiry.outcome_eq_eval]
  cases outcome : (tree.className node).eval tree <;>
    simp [bind, Except.bind, nameable, pure, Except.pure, Functor.map, Except.map]

/-- The names of a walk are those of the visited nodes, each by itself. -/
theorem eval_nameAlong {walk : Walk} (expands : walk.Expands tree.children)
    (names : Register String) :
    (tree.nameAlong names walk).eval tree = tree.nameEach names walk.visited := by
  induction expands generalizing names with
  | stop => rfl
  | @visit node rest goesOn breaks ih =>
      rw [nameAlong, Inquiry.eval_bind, Inquiry.eval_lift, Walk.visited, nameEach]
      cases kind_eq : tree.kind node with
      | error fault =>
          rw [visitStep_of_error kind_eq]
          rfl
      | ok kind =>
          obtain ⟨listed, children_eq⟩ := exists_children_of_kind kind_eq
          have further := ih listed children_eq
          cases nameable : kind.isContainer with
          | true =>
              rw [visitStep_of_container kind_eq nameable]
              simpa [bind, Except.bind, nameable] using further names
          | false =>
              change (if kind.isContainer = true then tree.nameAlong names (rest ())
                else do
                  let name ← tree.className node
                  tree.nameAlong (names.put node name) (rest ())).eval tree = _
              rw [nameable, if_neg Bool.false_ne_true, Inquiry.eval_bind,
                visitStep_of_nameable kind_eq nameable]
              cases (tree.className node).eval tree with
              | error fault => rfl
              | ok name => exact further (names.put node name)

/-! ## The first step that fails -/

theorem nameEach_of_error {before after : List Handle} {fault : Fault}
    (earlier : ∀ other ∈ before, ∃ named, tree.visitStep other = .ok named)
    (failed : tree.visitStep node = .error fault) (names : Register String) :
    tree.nameEach names (before ++ node :: after) = .error fault := by
  induction before generalizing names with
  | nil =>
      rw [List.nil_append, nameEach, failed]
      rfl
  | cons first before ih =>
      obtain ⟨⟨named, named_eq⟩, later⟩ := List.forall_mem_cons.mp earlier
      rw [List.cons_append, nameEach, named_eq]
      cases named with
      | none => exact ih later names
      | some name => exact ih later (names.put first name)

theorem ends_nameEach (acyclic : tree.Acyclic) (nodes : List Handle) (names : Register String) :
    Ends (tree.nameEach names nodes) := by
  have ends_step : ∀ node, Ends (tree.visitStep node) := by
    intro node
    refine (tree.ends_kind node).bind fun kind _ => ?_
    cases kind.isContainer with
    | true => exact (tree.ends_children node).bind fun _ _ => ends_ok none
    | false =>
        rw [if_neg Bool.false_ne_true, Inquiry.outcome_eq_eval]
        exact (ends_className acyclic node).bind fun name _ =>
          (tree.ends_children node).bind fun _ _ => ends_ok (some name)
  induction nodes generalizing names with
  | nil => exact ends_ok names
  | cons node rest ih =>
      refine (ends_step node).bind fun named _ => ?_
      cases named with
      | none => exact ih names
      | some name => exact ih (names.put node name)

/-- The name of a node that has one. -/
def nameOf (tree : ScopeTree) (node : Handle) : String :=
  ((tree.className node).outcome tree).toOption.getD ""

/-- A step that succeeds reads a file or package, or it names the node. -/
theorem named_of_visitStep {named : Option String} (step : tree.visitStep node = .ok named) :
    tree.isNameable.holds node = false ∧ named = none ∨
      tree.isNameable.holds node = true ∧ named = some (tree.nameOf node) ∧
        (tree.className node).outcome tree = .ok (tree.nameOf node) := by
  cases kind_eq : tree.kind node with
  | error fault =>
      rw [visitStep_of_error kind_eq] at step
      contradiction
  | ok kind =>
      cases nameable : kind.isContainer with
      | true =>
          rw [visitStep_of_container kind_eq nameable] at step
          exact Or.inl ⟨by simp [Test.holds, isNameable, kind_eq, Except.map, nameable],
            (Except.ok.inj step).symm⟩
      | false =>
          rw [visitStep_of_nameable kind_eq nameable, ← Inquiry.outcome_eq_eval] at step
          obtain ⟨name, outcome, rfl⟩ := map_eq_ok_iff.mp step
          have name_eq : tree.nameOf node = name := by
            simp [nameOf, outcome, Except.toOption]
          rw [name_eq]
          exact Or.inr
            ⟨by simp [Test.holds, isNameable, kind_eq, Except.map, nameable], rfl, outcome⟩

/-- Where every step succeeds the names arrive in the order of the visits. -/
theorem nameEach_of_ok {nodes : List Handle}
    (steps : ∀ node ∈ nodes, ∃ named, tree.visitStep node = .ok named) (names : Register String) :
    tree.nameEach names nodes =
      .ok ((nodes.filter tree.isNameable.holds).foldl
        (fun names node => names.put node (tree.nameOf node)) names) := by
  induction nodes generalizing names with
  | nil => rfl
  | cons node rest ih =>
      obtain ⟨⟨named, step⟩, later⟩ := List.forall_mem_cons.mp steps
      rw [nameEach, step, List.filter_cons]
      rcases named_of_visitStep step with ⟨passed, rfl⟩ | ⟨nameable, rfl, -⟩
      · rw [passed, if_neg Bool.false_ne_true]
        exact ih later names
      · rw [nameable, if_pos rfl]
        exact ih later (names.put node (tree.nameOf node))

end ScopeTree

/-! ## Sessions -/

namespace Session

open NumberingCache

/-- Whatever has been asked before, the names of a tree without cycles are those of its nodes one by
one.  If every visited node can be read, named and left, the names are those of the visited nodes
that are no files or packages, each once and in the order of the first visits.  Otherwise the naming
of the tree fails as the first of these steps does, and never for having no end. -/
theorem classNames_node_by_node {σ : Type} [BoundedCache σ Scope Numbering]
    {view : CacheView σ Scope Numbering} (lru : view.LeastRecentlyUsed) {trees : Array LabelledTree}
    {cache : σ} (reached : Reached trees cache) {place : Nat} {labelled : LabelledTree}
    (found : trees[place]? = some labelled) (acyclic : labelled.tree.Acyclic) :
    let tree := labelled.tree
    let visited := tree.iteration.visited
    let outcome := (run place tree tree.classNames cache).1
    ((∀ node ∈ visited, ∃ named, tree.visitStep node = .ok named) →
      ∃ names, outcome = .ok names ∧
        names.nodes = (visited.filter tree.isNameable.holds).eraseDups ∧
        ∀ node ∈ names.nodes, ∃ name, (tree.className node).outcome tree = .ok name ∧
          names.get? node = some name) ∧
      (∀ before node after fault, visited = before ++ node :: after →
        (∀ earlier ∈ before, ∃ named, tree.visitStep earlier = .ok named) →
        tree.visitStep node = .error fault → outcome = .error fault) ∧
      outcome ≠ .error .endless := by
  intro tree visited outcome
  have expands := ScopeTree.iteration_expands acyclic.children
  have outcome_eq : outcome = tree.nameEach .empty visited := by
    rw [← ScopeTree.eval_nameAlong expands]
    exact reached.run_eq_eval lru found tree.classNames
  refine ⟨fun steps => ?_, fun before node after fault split earlier failed => ?_, ?_⟩
  · have nodes_eq := Register.nodes_foldl
      (fun names node => names.nodes_put node (tree.nameOf node))
      (visited.filter tree.isNameable.holds)
    refine ⟨_, outcome_eq.trans (ScopeTree.nameEach_of_ok steps .empty), nodes_eq, ?_⟩
    intro node member
    rw [nodes_eq, List.mem_eraseDups] at member
    obtain ⟨met, nameable⟩ := List.mem_filter.mp member
    obtain ⟨named, step⟩ := steps node met
    rcases ScopeTree.named_of_visitStep step with ⟨passed, -⟩ | ⟨-, -, name_eq⟩
    · simp [passed] at nameable
    · exact ⟨tree.nameOf node, name_eq, Register.get?_foldl_put .empty (Or.inl member)⟩
  · rw [outcome_eq, split]
    exact ScopeTree.nameEach_of_error earlier failed .empty
  · rw [outcome_eq]
    exact ScopeTree.ends_nameEach acyclic visited .empty

/-- A class that lists its first lambda twice and its second lambda by counting from the end. -/
def oddlyListed : ScopeTree :=
  { records :=
      #[{ kind := .file, name := some "a.kt", parent := none, children := [1] },
        { kind := .klass, name := some "A", parent := some 0, children := [2, -1, 2] },
        { kind := .lambda, name := none, parent := some 1, children := [] },
        { kind := .lambda, name := none, parent := some 1, children := [] }]
    size_pos := by decide
    parent_root := rfl }

/-- A file that lists a class and a handle without a record. -/
def strayChild : ScopeTree :=
  { records :=
      #[{ kind := .file, name := some "b.kt", parent := none, children := [1, 7] },
        { kind := .klass, name := some "B", parent := some 0, children := [] }]
    size_pos := by decide
    parent_root := rfl }

/-- A cache that has numbered the lambdas of the first tree. -/
def oddlyListedCache : NumberingCache :=
  { capacity := 2, entries := [(⟨0, 1⟩, { entries := [(2, 3), (-1, 2)] })] }

/-- In the first tree every node has a name, in the second the stray handle decides. -/
theorem classNames_node_by_node_oddlyListed :
    Reached #[.ofTree oddlyListed, .ofTree strayChild] oddlyListedCache ∧ oddlyListed.Acyclic ∧
      strayChild.Acyclic ∧
      (∃ names, (run 0 oddlyListed oddlyListed.classNames oddlyListedCache).1 = .ok names ∧
        names.nodes = [1, 2, -1] ∧ names.get? 1 = some "A" ∧ names.get? 2 = some "A$3" ∧
        names.get? (-1) = some "A$2") ∧
      (run 1 strayChild strayChild.classNames oddlyListedCache).1 = .error .outOfRange := by
  have reached : Reached #[.ofTree oddlyListed, .ofTree strayChild] oddlyListedCache :=
    ⟨[2], [(0, .about .index ⟨0, .handle 2⟩)], _, _, by decide, rfl, Array.mem_singleton_self _⟩
  have acyclic : oddlyListed.Acyclic :=
    ⟨loopless_of_measure Fin.val (by decide),
      loopless_of_measure (fun place => 4 - place) (by decide)⟩
  have stray_acyclic : strayChild.Acyclic :=
    ⟨loopless_of_measure Fin.val (by decide),
      loopless_of_measure (fun place => 2 - place) (by decide)⟩
  obtain ⟨named, -, -⟩ := @classNames_node_by_node _ _ _ LruCache.leastRecentlyUsed _ _ reached 0
    (.ofTree oddlyListed) rfl acyclic
  obtain ⟨-, fails, -⟩ := @classNames_node_by_node _ _ _ LruCache.leastRecentlyUsed _ _ reached 1
    (.ofTree strayChild) rfl stray_acyclic
  have steps : ∀ node ∈ [0, 1, 2, -1, 2], ∃ named, oddlyListed.visitStep node = .ok named := by
    simp only [List.forall_mem_cons]
    exact ⟨⟨none, rfl⟩, ⟨some "A", rfl⟩, ⟨some "A$3", rfl⟩, ⟨some "A$2", rfl⟩, ⟨some "A$3", rfl⟩,
      by simp⟩
  have stray_steps : ∀ node ∈ [0, 1], ∃ named, strayChild.visitStep node = .ok named := by
    simp only [List.forall_mem_cons]
    exact ⟨⟨none, rfl⟩, ⟨some "B", rfl⟩, by simp⟩
  obtain ⟨names, names_eq, nodes_eq, each⟩ := named steps
  have nodes_eq : names.nodes = [1, 2, -1] := nodes_eq
  obtain ⟨first, first_eq, first_name⟩ := each 1 (by simp [nodes_eq])
  obtain ⟨second, second_eq, second_name⟩ := each 2 (by simp [nodes_eq])
  obtain ⟨third, third_eq, third_name⟩ := each (-1) (by simp [nodes_eq])
  obtain rfl : "A" = first := Except.ok.inj first_eq
  obtain rfl : "A$3" = second := Except.ok.inj second_eq
  obtain rfl : "A$2" = third := Except.ok.inj third_eq
  exact ⟨reached, acyclic, stray_acyclic,
    ⟨names, names_eq, nodes_eq, first_name, second_name, third_name⟩,
    fails [0, 1] 7 [] .outOfRange rfl stray_steps rfl⟩

end Session

end BinaryName
