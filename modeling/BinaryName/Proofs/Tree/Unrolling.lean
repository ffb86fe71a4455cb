import Mathlib.Data.List.Forall2
import BinaryName.Proofs.Tree.Closed

/-!
# The recursion behind a walk

The walk with a stack goes through the nodes of the stack one after the other, and what is below a
shared node is walked again at every place that lists it.  So in a tree whose children form no cycle
the walk solves the equation of the recursive preorder, and nothing else does.  It visits the end of
every path down, and it breaks at the first handle without a record.
-/

namespace BinaryName

/-- The test that a function makes. -/
def Test.ofBool (passes : Handle → Bool) : Test := fun node => .ok (passes node)

/-! ## Walks in turn -/

namespace Walk

/-- A walk, and then another one unless the first breaks. -/
def followedBy (walk next : Walk) : Walk :=
  match walk with
  | .stop => next
  | .broken fault => .broken fault
  | .visit node rest => .visit node fun _ => (rest ()).followedBy next

/-- Walks one after the other, up to the first that breaks. -/
def inTurn : List Walk → Walk
  | [] => .stop
  | walk :: rest => walk.followedBy (inTurn rest)

theorem fault?_followedBy (walk next : Walk) :
    (walk.followedBy next).fault? = walk.fault?.or next.fault? := by
  induction walk with
  | stop => rfl
  | broken fault => rfl
  | visit node rest ih => exact ih ()

theorem visited_followedBy {walk : Walk} (stops : walk.fault? = none) (next : Walk) :
    (walk.followedBy next).visited = walk.visited ++ next.visited := by
  induction walk with
  | stop => rfl
  | broken fault => simp [fault?] at stops
  | visit node rest ih => exact congrArg (node :: ·) (ih () stops)

theorem fault?_inTurn_eq_none_iff (walks : List Walk) :
    (inTurn walks).fault? = none ↔ ∀ walk ∈ walks, walk.fault? = none := by
  induction walks with
  | nil => simp [inTurn, fault?]
  | cons walk rest ih =>
      rw [inTurn, fault?_followedBy, Option.or_eq_none_iff, ih, List.forall_mem_cons]

theorem visited_inTurn {walks : List Walk} (stop : ∀ walk ∈ walks, walk.fault? = none) :
    (inTurn walks).visited = walks.flatMap visited := by
  induction walks with
  | nil => rfl
  | cons walk rest ih =>
      obtain ⟨stops, others⟩ := List.forall_mem_cons.mp stop
      rw [inTurn, visited_followedBy stops, ih others, List.flatMap_cons]

end Walk

/-- A walk that breaks does so at the node that it visits last, the only one that it cannot
leave. -/
theorem Walk.Expands.exists_last {successors : Handle → Except Fault (List Handle)} {walk : Walk}
    (expands : walk.Expands successors) {fault : Fault} (breaks : walk.fault? = some fault) :
    ∃ before last, walk.visited = before ++ [last] ∧ successors last = .error fault ∧
      ∀ node ∈ before, ∃ next, successors node = .ok next := by
  induction expands with
  | stop => simp [fault?] at breaks
  | @visit node rest _ breaksHere ih =>
      rw [fault?] at breaks
      cases next_eq : successors node with
      | error other =>
          rw [breaksHere other next_eq, fault?] at breaks
          refine ⟨[], node, ?_, by rw [next_eq, Option.some.inj breaks], by simp⟩
          rw [visited, breaksHere other next_eq, visited, List.nil_append]
      | ok next =>
          obtain ⟨before, last, visited_eq, failed, left⟩ := ih next next_eq breaks
          refine ⟨node :: before, last, by rw [visited, visited_eq, List.cons_append], failed, ?_⟩
          exact List.forall_mem_cons.mpr ⟨⟨next, next_eq⟩, left⟩

namespace ScopeTree

variable {tree : ScopeTree} {test : Test} {skip : Handle → Bool}

/-! ## What is on the stack is walked in turn -/

/-- A bound beyond the weight of the stack is never reached. -/
theorem descend_congr (loopless : Loopless tree.ListsChild) {bound other : Nat}
    {stack : List Handle}
    (enough : (stack.map tree.weight).sum ≤ bound) (also : (stack.map tree.weight).sum ≤ other) :
    descend (tree.successors test) bound stack = descend (tree.successors test) other stack := by
  induction bound generalizing other stack with
  | zero =>
      cases stack with
      | nil => cases other <;> rfl
      | cons top stack =>
          have positive := tree.weight_pos top
          rw [List.map_cons, List.sum_cons] at enough
          omega
  | succ bound ih =>
      cases stack with
      | nil => cases other <;> rfl
      | cons top stack =>
          have positive := tree.weight_pos top
          rw [List.map_cons, List.sum_cons] at enough also
          obtain ⟨other, rfl⟩ : ∃ less, other = less + 1 := ⟨other - 1, by omega⟩
          rw [descend, descend]
          congr 1
          funext _
          cases next_eq : tree.successors test top with
          | error fault => rfl
          | ok next =>
              have lighter := sum_weight_successors_lt loopless next_eq
              apply ih <;> rw [List.map_append, List.sum_append] <;> omega

theorem descend_append (loopless : Loopless tree.ListsChild) {bound : Nat}
    {front back : List Handle}
    (enough : ((front ++ back).map tree.weight).sum ≤ bound) :
    descend (tree.successors test) bound (front ++ back) =
      (descend (tree.successors test) bound front).followedBy
        (descend (tree.successors test) bound back) := by
  induction bound generalizing front with
  | zero =>
      cases front with
      | nil => rfl
      | cons top front =>
          have positive := tree.weight_pos top
          rw [List.cons_append, List.map_cons, List.sum_cons] at enough
          omega
  | succ bound ih =>
      cases front with
      | nil => rfl
      | cons top front =>
          rw [List.cons_append, List.map_cons, List.sum_cons, List.map_append, List.sum_append]
            at enough
          have positive := tree.weight_pos top
          have back_eq : descend (tree.successors test) (bound + 1) back =
              descend (tree.successors test) bound back :=
            descend_congr loopless (by omega) (by omega)
          rw [List.cons_append, back_eq, descend, descend, Walk.followedBy]
          congr 1
          funext _
          cases next_eq : tree.successors test top with
          | error fault => rfl
          | ok next =>
              have lighter := sum_weight_successors_lt loopless next_eq
              simp only [← List.append_assoc]
              apply ih
              simp only [List.map_append, List.sum_append]
              omega

/-- The nodes of a stack are walked one after the other. -/
theorem descend_eq_inTurn (loopless : Loopless tree.ListsChild) {bound : Nat} {stack : List Handle}
    (enough : (stack.map tree.weight).sum ≤ bound) :
    descend (tree.successors test) bound stack = .inTurn (stack.map (tree.preorder test)) := by
  induction stack with
  | nil => cases bound <;> rfl
  | cons top stack ih =>
      rw [List.map_cons, List.sum_cons] at enough
      have first : descend (tree.successors test) bound [top] = tree.preorder test top :=
        descend_congr loopless (by simp; omega) (by simpa using weight_le_visitBound loopless top)
      have split := @descend_append tree test loopless bound [top] stack (by simpa using enough)
      rw [List.map_cons, Walk.inTurn, ← ih (by omega), ← first]
      exact split

/-- A node is visited, and what is below its successors is walked one after the other. -/
theorem preorder_eq_inTurn (loopless : Loopless tree.ListsChild) (test : Test) (start : Handle) :
    tree.preorder test start = .visit start fun _ =>
      match tree.successors test start with
      | .error fault => .broken fault
      | .ok next => .inTurn (next.map (tree.preorder test)) := by
  have start_le := weight_le_visitBound loopless start
  have positive := tree.weight_pos start
  obtain ⟨bound, bound_eq⟩ : ∃ less, tree.visitBound = less + 1 := ⟨tree.visitBound - 1, by omega⟩
  change descend (tree.successors test) tree.visitBound [start] = _
  rw [bound_eq, descend]
  congr 1
  funext _
  cases next_eq : tree.successors test start with
  | error fault => rfl
  | ok next =>
      have lighter := sum_weight_successors_lt loopless next_eq
      simp only [List.append_nil]
      exact descend_eq_inTurn loopless (by omega)

/-! ## The recursive preorder -/

/-- The walks solve the equation of the recursive preorder: a node is visited first, and then come
the walks of its children that are not to be skipped. -/
def Unrolls (tree : ScopeTree) (skip : Handle → Bool) (walk : Handle → Walk) : Prop :=
  ∀ node, walk node = .visit node fun _ =>
    match tree.children node with
    | .error fault => .broken fault
    | .ok listed => .inTurn ((listed.filter fun child => !skip child).map walk)

theorem unskipped_ofBool (skip : Handle → Bool) (nodes : List Handle) :
    unskipped (.ofBool skip) nodes = .ok (nodes.filter fun node => !skip node) := by
  induction nodes with
  | nil => rfl
  | cons node rest ih =>
      rw [unskipped, ih, Test.ofBool]
      cases skipped : skip node <;> simp [skipped, bind, Except.bind, pure, Except.pure]

theorem successors_ofBool (tree : ScopeTree) (skip : Handle → Bool) (node : Handle) :
    tree.successors (.ofBool skip) node =
      (tree.children node).map fun listed => listed.filter fun child => !skip child := by
  rw [successors]
  cases tree.children node with
  | error fault => rfl
  | ok listed => exact unskipped_ofBool skip listed

theorem unrolls_preorder (loopless : Loopless tree.ListsChild) (skip : Handle → Bool) :
    tree.Unrolls skip (tree.preorder (.ofBool skip)) := by
  intro node
  rw [preorder_eq_inTurn loopless, successors_ofBool]
  congr 1
  funext _
  cases tree.children node <;> rfl

/-- Without a cycle the equation has one solution only: children are lower than their parents. -/
theorem Unrolls.unique (loopless : Loopless tree.ListsChild) {walk other : Handle → Walk}
    (unrolls : tree.Unrolls skip walk) (also : tree.Unrolls skip other) : walk = other := by
  funext node
  induction depth : tree.height tree.ListsChild node using Nat.strongRecOn generalizing node with
  | ind depth ih =>
      rw [unrolls node, also node]
      congr 1
      funext _
      cases children_eq : tree.children node with
      | error fault => rfl
      | ok listed =>
          have same : (listed.filter fun child => !skip child).map walk =
              (listed.filter fun child => !skip child).map other := by
            refine List.map_congr_left fun child member => ?_
            have lower := height_child_lt loopless children_eq (List.mem_filter.mp member).1
            exact ih _ (by omega) child rfl
          simp only [same]

/-! ## Where a walk ends -/

theorem preorder_of_stops (loopless : Loopless tree.ListsChild) {start : Handle}
    (stops : (tree.preorder (.ofBool skip) start).fault? = none) :
    ∃ listed, tree.children start = .ok listed ∧
      (∀ child ∈ listed, skip child = false →
        (tree.preorder (.ofBool skip) child).fault? = none) ∧
      (tree.preorder (.ofBool skip) start).visited =
        start :: (listed.filter fun child => !skip child).flatMap fun child =>
          (tree.preorder (.ofBool skip) child).visited := by
  have unrolled := unrolls_preorder loopless skip start
  cases children_eq : tree.children start with
  | error fault =>
      rw [unrolled] at stops
      simp [Walk.fault?, children_eq] at stops
  | ok listed =>
      simp only [children_eq] at unrolled
      rw [unrolled, Walk.fault?, Walk.fault?_inTurn_eq_none_iff, List.forall_mem_map] at stops
      refine ⟨listed, rfl, ?_, ?_⟩
      · intro child member unskipped
        exact stops child (List.mem_filter.mpr ⟨member, by simp [unskipped]⟩)
      · rw [unrolled, Walk.visited, Walk.visited_inTurn (List.forall_mem_map.mpr stops),
          List.flatMap_map]

theorem children_eq_error_iff {node : Handle} {fault : Fault} :
    tree.children node = .error fault ↔ ¬tree.Readable node ∧ fault = misread node := by
  rw [children, record, Readable]
  cases tree.position? node with
  | none => simp [Except.map, eq_comm]
  | some position => simp [Except.map]

theorem successors_ofBool_eq_error_iff {node : Handle} {fault : Fault} :
    tree.successors (.ofBool skip) node = .error fault ↔
      ¬tree.Readable node ∧ fault = misread node := by
  rw [successors_ofBool, ← children_eq_error_iff]
  cases tree.children node <;> simp [Except.map]

theorem readable_of_successors {node : Handle} {next : List Handle}
    (next_eq : tree.successors (.ofBool skip) node = .ok next) : tree.Readable node := by
  by_contra unreadable
  rw [successors_ofBool_eq_error_iff.mpr ⟨unreadable, rfl⟩] at next_eq
  contradiction

/-- A walk that breaks ends with a node without a record, and no node before is such a one. -/
theorem exists_unreadable (loopless : Loopless tree.ListsChild) {start : Handle} {fault : Fault}
    (breaks : (tree.preorder (.ofBool skip) start).fault? = some fault) :
    ∃ before last, (tree.preorder (.ofBool skip) start).visited = before ++ [last] ∧
      (∀ node ∈ before, tree.Readable node) ∧ ¬tree.Readable last ∧ fault = misread last := by
  obtain ⟨before, last, visited_eq, failed, left⟩ :=
    (preorder_expands loopless (.ofBool skip) start).exists_last breaks
  obtain ⟨unreadable, fault_eq⟩ := successors_ofBool_eq_error_iff.mp failed
  refine ⟨before, last, visited_eq, fun node member => ?_, unreadable, fault_eq⟩
  obtain ⟨next, next_eq⟩ := left node member
  exact readable_of_successors next_eq

/-! ## Paths -/

/-- The node at the end of a path of child places.  No path goes to a child that is to be
skipped. -/
def follow (tree : ScopeTree) (skip : Handle → Bool) : Handle → List Nat → Option Handle
  | node, [] => some node
  | node, place :: rest => do
      let listed ← (tree.children node).toOption
      let child ← listed[place]?
      if skip child then none else tree.follow skip child rest

/-- The paths are all the paths down from the start, in lexicographic order, and the nodes are their
ends, one for each path. -/
structure Traces (tree : ScopeTree) (skip : Handle → Bool) (start : Handle)
    (paths : List (List Nat))
    (nodes : List Handle) : Prop where
  ordered : paths.Pairwise (· < ·)
  complete : ∀ path, path ∈ paths ↔ (tree.follow skip start path).isSome = true
  ends : List.Forall₂ (fun path node => tree.follow skip start path = some node) paths nodes

theorem follow_cons {start : Handle} {listed : List Handle}
    (children_eq : tree.children start = .ok listed) (place : Nat) (rest : List Nat) :
    tree.follow skip start (place :: rest) =
      listed[place]?.bind fun child =>
        if skip child then none else tree.follow skip child rest := by
  rw [follow, children_eq]
  rfl

section

variable {pathsOf : Handle → List (List Nat)} {nodesOf : Handle → List Handle}
  {listed : List Handle}

/-- The paths through some nodes: the place of a node, and then a path from there. -/
def pathsThrough (skip : Handle → Bool) (pathsOf : Handle → List (List Nat))
    (listed : List Handle) :
    List (List Nat) :=
  listed.zipIdx.flatMap fun entry =>
    if skip entry.1 then [] else (pathsOf entry.1).map (entry.2 :: ·)

theorem mem_paths_of_entry {entry : Handle × Nat} {path : List Nat} :
    (path ∈ if skip entry.1 then [] else (pathsOf entry.1).map (entry.2 :: ·)) ↔
      skip entry.1 = false ∧ ∃ rest ∈ pathsOf entry.1, entry.2 :: rest = path := by
  cases skip entry.1 <;> simp

theorem mem_pathsThrough {path : List Nat} :
    path ∈ pathsThrough skip pathsOf listed ↔
      ∃ place child, listed[place]? = some child ∧ skip child = false ∧
        ∃ rest ∈ pathsOf child, place :: rest = path := by
  rw [pathsThrough, List.mem_flatMap]
  constructor
  · rintro ⟨⟨child, place⟩, member, path_member⟩
    exact ⟨place, child, List.mk_mem_zipIdx_iff_getElem?.mp member,
      mem_paths_of_entry.mp path_member⟩
  · rintro ⟨place, child, child_eq, through⟩
    exact ⟨(child, place), List.mk_mem_zipIdx_iff_getElem?.mpr child_eq,
      mem_paths_of_entry.mpr through⟩

theorem pairwise_pathsThrough
    (ordered : ∀ child ∈ listed, skip child = false → (pathsOf child).Pairwise (· < ·)) :
    (pathsThrough skip pathsOf listed).Pairwise (· < ·) := by
  refine List.pairwise_flatMap.mpr ⟨?_, ?_⟩
  · rintro ⟨child, place⟩ member
    have child_eq := List.mk_mem_zipIdx_iff_getElem?.mp member
    cases skipped : skip child with
    | true => simp
    | false =>
        simp only [Bool.false_eq_true, if_false, List.pairwise_map, List.cons_lt_cons_self]
        exact ordered child (List.mem_of_getElem? child_eq) skipped
  · have places : (listed.zipIdx.map Prod.snd).Pairwise (· < ·) := by
      rw [List.zipIdx_map_snd]
      exact List.pairwise_lt_range'
    refine (List.pairwise_map.mp places).imp fun lt path member later later_member => ?_
    obtain ⟨-, rest, -, rfl⟩ := mem_paths_of_entry.mp member
    obtain ⟨-, later_rest, -, rfl⟩ := mem_paths_of_entry.mp later_member
    exact List.cons_lt_cons_iff.mpr (Or.inl lt)

theorem forall₂_pathsThrough {leads : List Nat → Handle → Prop}
    (ends : ∀ place child, listed[place]? = some child → skip child = false →
      List.Forall₂ (fun rest node => leads (place :: rest) node) (pathsOf child) (nodesOf child)) :
    List.Forall₂ leads (pathsThrough skip pathsOf listed)
      ((listed.filter fun child => !skip child).flatMap nodesOf) := by
  have from_place : ∀ (before after : List Handle), before ++ after = listed →
      List.Forall₂ leads
        ((after.zipIdx before.length).flatMap fun entry =>
          if skip entry.1 then [] else (pathsOf entry.1).map (entry.2 :: ·))
        ((after.filter fun child => !skip child).flatMap nodesOf) := by
    intro before after
    induction after generalizing before with
    | nil => exact fun _ => .nil
    | cons child after ih =>
        intro split
        have child_eq : listed[before.length]? = some child := by simp [← split]
        have others := ih (before ++ [child]) (by simpa using split)
        rw [List.length_append, List.length_singleton] at others
        cases skipped : skip child with
        | true => simpa [List.zipIdx_cons, skipped] using others
        | false =>
            have first : List.Forall₂ leads ((pathsOf child).map (before.length :: ·))
                (nodesOf child) := by
              rw [List.forall₂_map_left_iff]
              exact ends before.length child child_eq skipped
            simpa [List.zipIdx_cons, skipped] using List.rel_append first others
  exact from_place [] listed rfl

/-- The paths from a node are the empty one and those through its children. -/
theorem traces_of_children {start : Handle} (children_eq : tree.children start = .ok listed)
    (each : ∀ child ∈ listed, skip child = false →
      tree.Traces skip child (pathsOf child) (nodesOf child)) :
    tree.Traces skip start ([] :: pathsThrough skip pathsOf listed)
      (start :: (listed.filter fun child => !skip child).flatMap nodesOf) := by
  refine ⟨?_, ?_, ?_⟩
  · refine List.pairwise_cons.mpr ⟨fun path member => ?_, ?_⟩
    · obtain ⟨place, -, -, -, rest, -, rfl⟩ := mem_pathsThrough.mp member
      exact List.nil_lt_cons place rest
    · exact pairwise_pathsThrough fun child member unskipped =>
        (each child member unskipped).ordered
  · intro path
    cases path with
    | nil => simp [follow]
    | cons place rest =>
        rw [List.mem_cons, mem_pathsThrough, follow_cons children_eq]
        cases child_eq : listed[place]? with
        | none => simp [child_eq]
        | some child =>
            cases skipped : skip child with
            | true => simp [child_eq, skipped]
            | false =>
                have complete := (each child (List.mem_of_getElem? child_eq) skipped).complete rest
                simp [child_eq, skipped, complete]
  · refine .cons rfl (forall₂_pathsThrough fun place child child_eq unskipped => ?_)
    refine (each child (List.mem_of_getElem? child_eq) unskipped).ends.imp fun rest node leads => ?_
    rw [follow_cons children_eq, child_eq, Option.bind_some, unskipped, if_neg Bool.false_ne_true,
      leads]

end

/-- A walk that does not break visits the end of every path, once for the path. -/
theorem exists_traces (loopless : Loopless tree.ListsChild) {start : Handle}
    (stops : (tree.preorder (.ofBool skip) start).fault? = none) :
    ∃ paths, tree.Traces skip start paths (tree.preorder (.ofBool skip) start).visited := by
  induction depth : tree.height tree.ListsChild start using Nat.strongRecOn generalizing start with
  | ind depth ih =>
      obtain ⟨listed, children_eq, others_stop, visited_eq⟩ := preorder_of_stops loopless stops
      have each : ∀ child, ∃ paths, child ∈ listed → skip child = false →
          tree.Traces skip child paths (tree.preorder (.ofBool skip) child).visited := by
        intro child
        by_cases walked : child ∈ listed ∧ skip child = false
        · have lower := height_child_lt loopless children_eq walked.1
          obtain ⟨paths, traces⟩ := ih _ (by omega) (others_stop child walked.1 walked.2) rfl
          exact ⟨paths, fun _ _ => traces⟩
        · exact ⟨[], fun member unskipped => absurd ⟨member, unskipped⟩ walked⟩
      choose pathsOf traces using each
      rw [visited_eq]
      exact ⟨_, traces_of_children children_eq traces⟩

/-- The walk below a node is the recursive preorder, and the iteration of the tree is the one at the
root where nothing is skipped.  A walk stops after the start and what its children that are not to
be skipped lead to, child by child, and then it has visited the end of every path down once for the
path.  Or else it breaks at the first node without a record, which it visits last. -/
theorem preorder_unrolls {tree : ScopeTree} (loopless : Loopless tree.ListsChild) :
    tree.iteration = tree.preorder .never root ∧
      ∀ skip : Handle → Bool,
        (∀ walk, tree.Unrolls skip walk ↔ walk = tree.preorder (.ofBool skip)) ∧
        ∀ start,
          (∃ listed paths nodes, (tree.preorder (.ofBool skip) start).nodes = .ok nodes ∧
            tree.children start = .ok listed ∧
            nodes = start :: (listed.filter fun child => !skip child).flatMap (fun child =>
              (tree.preorder (.ofBool skip) child).visited) ∧
            tree.Traces skip start paths nodes) ∨
          ∃ before last, (tree.preorder (.ofBool skip) start).visited = before ++ [last] ∧
            (∀ node ∈ before, tree.Readable node) ∧ ¬tree.Readable last ∧
            (tree.preorder (.ofBool skip) start).nodes = .error (misread last) := by
  refine ⟨tree.iteration_eq_preorder, fun skip => ⟨fun walk => ?_, fun start => ?_⟩⟩
  · have unrolls := unrolls_preorder loopless skip
    exact ⟨fun also => also.unique loopless unrolls, fun same => same ▸ unrolls⟩
  · have nodes_eq := (tree.preorder (.ofBool skip) start).nodes_eq
    cases ending : (tree.preorder (.ofBool skip) start).fault? with
    | none =>
        obtain ⟨listed, children_eq, -, visited_eq⟩ := preorder_of_stops loopless ending
        obtain ⟨paths, traces⟩ := exists_traces loopless ending
        rw [ending] at nodes_eq
        exact Or.inl ⟨listed, paths, _, nodes_eq, children_eq, visited_eq, traces⟩
    | some fault =>
        obtain ⟨before, last, visited_eq, readable, unreadable, rfl⟩ :=
          exists_unreadable loopless ending
        rw [ending] at nodes_eq
        exact Or.inr ⟨before, last, visited_eq, readable, unreadable, nodes_eq⟩

/-- A class that is listed twice and lists a lambda from the end, and a class with a stray child. -/
def sharedClass : ScopeTree :=
  { records :=
      #[{ kind := .file, name := some "a.kt", parent := none, children := [1, 2, 1] },
        { kind := .klass, name := some "A", parent := some 0, children := [-1] },
        { kind := .klass, name := some "B", parent := some 0, children := [3, 9] },
        { kind := .lambda, name := none, parent := some 1, children := [] }]
    size_pos := by decide
    parent_root := rfl }

/-- Without the second class the lambda is visited on both paths to it.  With that class the
iteration breaks at the stray child. -/
theorem preorder_unrolls_sharedClass :
    Loopless sharedClass.ListsChild ∧
      (∃ paths, (sharedClass.preorder (.ofBool (· == 2)) 0).nodes = .ok [0, 1, -1, 1, -1] ∧
        sharedClass.Traces (· == 2) 0 paths [0, 1, -1, 1, -1] ∧ [0, 0] ∈ paths ∧ [2, 0] ∈ paths) ∧
      sharedClass.iteration.visited = [0, 1, -1, 2, 3] ++ [9] ∧
      sharedClass.iteration.nodes = .error .outOfRange := by
  have loopless : Loopless sharedClass.ListsChild :=
    loopless_of_measure (fun place => 4 - place) (by decide)
  obtain ⟨iteration_eq, unrolled⟩ := preorder_unrolls loopless
  refine ⟨loopless, ?_, ?_⟩
  · have whole : (sharedClass.preorder (.ofBool (· == 2)) 0).nodes = .ok [0, 1, -1, 1, -1] := rfl
    rcases (unrolled (· == 2)).2 0 with
      ⟨listed, paths, nodes, nodes_eq, -, -, traces⟩ | ⟨before, last, -, -, -, breaks⟩
    · obtain rfl : [0, 1, -1, 1, -1] = nodes := Except.ok.inj nodes_eq
      exact ⟨paths, whole, traces, (traces.complete _).mpr rfl, (traces.complete _).mpr rfl⟩
    · rw [whole] at breaks
      contradiction
  · have stray : (sharedClass.preorder .never root).nodes = .error .outOfRange := rfl
    rw [iteration_eq]
    rcases (unrolled fun _ => false).2 root with
      ⟨listed, paths, nodes, nodes_eq, -⟩ | ⟨before, last, visited_eq, -, -, breaks⟩
    · have nodes_eq : (sharedClass.preorder .never root).nodes = .ok nodes := nodes_eq
      rw [stray] at nodes_eq
      contradiction
    · have same : [0, 1, -1, 2, 3] ++ [9] = before ++ [last] := visited_eq
      obtain ⟨rfl, rfl⟩ := List.append_singleton_inj.mp same
      exact ⟨visited_eq, breaks⟩

end ScopeTree

end BinaryName
