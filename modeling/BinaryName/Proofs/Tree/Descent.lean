import BinaryName.Proofs.Tree.Lineage

/-!
# Walks down a nest

The walk with a stack visits a planted nest as the nest itself is built: the first handle, and then
the nests below that are not skipped, one after the other.  A visit for every handle is enough, so
the bound on the walk is not met.
-/

namespace BinaryName

/-- The walk that visits some nodes and then goes on as another. -/
def Walk.after (walk : Walk) : List Handle → Walk
  | [] => walk
  | node :: rest => .visit node fun _ => walk.after rest

theorem Walk.after_append (walk : Walk) (front rest : List Handle) :
    walk.after (front ++ rest) = (walk.after rest).after front := by
  induction front with
  | nil => rfl
  | cons node front ih => simp only [List.cons_append, after, ih]

theorem Walk.collect_stop_after (met nodes : List Handle) :
    (Walk.stop.after nodes).collect met = .ok (met.reverse ++ nodes) := by
  induction nodes generalizing met with
  | nil => simp [after, collect]
  | cons node rest ih => simp [after, collect, ih]

theorem Walk.visited_stop_after (nodes : List Handle) :
    (Walk.stop.after nodes).visited = nodes := by
  induction nodes with
  | nil => rfl
  | cons node rest ih => rw [after, visited, ih]

/-- A walk that visits some nodes and stops has these nodes. -/
theorem Walk.nodes_stop_after (nodes : List Handle) : (Walk.stop.after nodes).nodes = .ok nodes :=
  collect_stop_after [] nodes

/-- Successive handles. -/
def handlesFrom (start count : Nat) : List Handle := (List.range' start count).map Int.ofNat

theorem handlesFrom_zero (start : Nat) : handlesFrom start 0 = [] := rfl

theorem handlesFrom_succ (start count : Nat) :
    handlesFrom start (count + 1) = (start : Int) :: handlesFrom (start + 1) count := by
  simp [handlesFrom, List.range'_succ]

theorem handlesFrom_add (start count more : Nat) :
    handlesFrom start (count + more) =
      handlesFrom start count ++ handlesFrom (start + count) more := by
  simp [handlesFrom, ← List.range'_append_1]

@[simp] theorem length_handlesFrom (start count : Nat) :
    (handlesFrom start count).length = count := by
  simp [handlesFrom]

theorem mem_handlesFrom {start count : Nat} {node : Handle} :
    node ∈ handlesFrom start count ↔
      ∃ place : Nat, node = place ∧ start ≤ place ∧ place < start + count := by
  simp [handlesFrom, eq_comm, and_comm]

theorem pairwise_handlesFrom (start count : Nat) :
    (handlesFrom start count).Pairwise fun node other : Int => node < other :=
  List.Pairwise.map _ (fun _ _ lt => Int.ofNat_lt.mpr lt) List.pairwise_lt_range'

theorem nodup_handlesFrom (start count : Nat) : (handlesFrom start count).Nodup :=
  List.Pairwise.map _ (fun _ _ distinct equal => distinct (Int.ofNat.inj equal)) List.nodup_range'

theorem ScopeTree.handles_eq (tree : ScopeTree) : tree.handles = handlesFrom 0 tree.size := by
  rw [handles, handlesFrom, List.range_eq_range']

theorem ScopeTree.mem_handles {tree : ScopeTree} {node : Handle} :
    node ∈ tree.handles ↔ ∃ place : Nat, node = place ∧ place < tree.size := by
  rw [tree.handles_eq, mem_handlesFrom]
  simp

/-- Handles in order are determined by which they are. -/
theorem eq_of_sublist_handlesFrom {nodes others : List Handle} {start count first total : Nat}
    (sublist : nodes.Sublist (handlesFrom start count))
    (also : others.Sublist (handlesFrom first total))
    (mem_iff : ∀ node, node ∈ nodes ↔ node ∈ others) : nodes = others := by
  have increasing := (pairwise_handlesFrom start count).sublist sublist
  have also_increasing := (pairwise_handlesFrom first total).sublist also
  have perm := (List.perm_ext_iff_of_nodup ((nodup_handlesFrom start count).sublist sublist)
    ((nodup_handlesFrom first total).sublist also)).mpr mem_iff
  exact perm.eq_of_pairwise (fun node other _ _ lt gt => absurd gt (Int.lt_asymm lt)) increasing
    also_increasing

namespace Decl

mutual

/-- The handles of a nest in preorder, without the nests below whose first handle is skipped. -/
def kept (skip : Handle → Bool) (start : Nat) : Decl → List Handle
  | .declare _ children => (start : Int) :: keptAll skip (start + 1) children
  | .foreign _ => []

/-- The handles of several nests in preorder, without those whose first handle is skipped. -/
def keptAll (skip : Handle → Bool) (start : Nat) : List Decl → List Handle
  | [] => []
  | decl :: rest =>
      (if skip start then [] else decl.kept skip start) ++ keptAll skip (start + decl.count) rest

end

mutual

theorem kept_sublist (skip : Handle → Bool) (start : Nat) :
    ∀ decl : Decl, (decl.kept skip start).Sublist (handlesFrom start decl.count)
  | .declare head children => by
      rw [kept, count, handlesFrom_succ]
      exact (keptAll_sublist skip (start + 1) children).cons_cons _
  | .foreign _ => List.nil_sublist _

theorem keptAll_sublist (skip : Handle → Bool) (start : Nat) :
    ∀ decls : List Decl, (keptAll skip start decls).Sublist (handlesFrom start (countAll decls))
  | [] => List.nil_sublist _
  | decl :: rest => by
      rw [keptAll, countAll, handlesFrom_add]
      apply List.Sublist.append _ (keptAll_sublist skip (start + decl.count) rest)
      split
      · exact List.nil_sublist _
      · exact kept_sublist skip start decl

end

theorem length_kept_le (skip : Handle → Bool) (start : Nat) (decl : Decl) :
    (decl.kept skip start).length ≤ decl.count := by
  simpa using (kept_sublist skip start decl).length_le

theorem nodup_kept (skip : Handle → Bool) (start : Nat) (decl : Decl) :
    (decl.kept skip start).Nodup :=
  (nodup_handlesFrom start decl.count).sublist (kept_sublist skip start decl)

mutual

/-- A planted nest keeps all its handles if none of them but the first is skipped. -/
theorem kept_eq_handlesFrom {tree : ScopeTree} {skip : Handle → Bool} {parent : Option Nat}
    {start : Nat} :
    ∀ decl : Decl, decl.Planted tree parent start →
      (∀ node : Nat, start < node → node < start + decl.count → skip node = false) →
      decl.kept skip start = handlesFrom start decl.count
  | .declare head children, planted, unskipped => by
      rw [count] at unskipped
      rw [kept, count, handlesFrom_succ]
      congr 1
      exact keptAll_eq_handlesFrom children planted.below fun node le lt =>
        unskipped node (by omega) (by omega)
  | .foreign _, planted, _ => planted.elim

theorem keptAll_eq_handlesFrom {tree : ScopeTree} {skip : Handle → Bool} {parent start : Nat} :
    ∀ decls : List Decl, PlantedAll tree parent start decls →
      (∀ node : Nat, start ≤ node → node < start + countAll decls → skip node = false) →
      keptAll skip start decls = handlesFrom start (countAll decls)
  | [], _, _ => rfl
  | decl :: rest, planted, unskipped => by
      have positive := decl.count_pos
      rw [countAll] at unskipped
      have here : skip (start : Int) = false := unskipped start (by omega) (by omega)
      have first : decl.kept skip start = handlesFrom start decl.count :=
        kept_eq_handlesFrom decl planted.first fun node lt le =>
          unskipped node (by omega) (by omega)
      have others : keptAll skip (start + decl.count) rest =
          handlesFrom (start + decl.count) (countAll rest) :=
        keptAll_eq_handlesFrom rest planted.rest fun node le lt =>
          unskipped node (by omega) (by omega)
      rw [keptAll, countAll, handlesFrom_add, first, others, here]
      rfl

end

end Decl

namespace ScopeTree

variable {tree : ScopeTree}

/-- The test never fails on a node of the tree, and it comes out as the function says. -/
def Decides (tree : ScopeTree) (test : Test) (skip : Handle → Bool) : Prop :=
  ∀ node : Nat, node < tree.size → test (node : Int) = .ok (skip node)

theorem decides_never (tree : ScopeTree) : tree.Decides .never fun _ => false :=
  fun _ _ => rfl

theorem unskipped_eq_filter {test : Test} {skip : Handle → Bool} (decides : tree.Decides test skip)
    (nodes : List Handle)
    (inside : ∀ node ∈ nodes, ∃ place : Nat, node = place ∧ place < tree.size) :
    unskipped test nodes = .ok (nodes.filter fun node => !skip node) := by
  induction nodes with
  | nil => rfl
  | cons node rest ih =>
      obtain ⟨place, rfl, place_lt⟩ := inside node List.mem_cons_self
      rw [unskipped, decides place place_lt,
        ih fun other member => inside other (List.mem_cons_of_mem _ member)]
      cases skipped : skip place <;> simp [skipped, bind, Except.bind, pure, Except.pure]

/-- The successors in a walk that skips what a test says. -/
def successors (tree : ScopeTree) (test : Test) (node : Handle) : Except Fault (List Handle) := do
  unskipped test (← tree.children node)

end ScopeTree

namespace Decl

open ScopeTree

theorem mem_starts {start : Nat} {decls : List Decl} {node : Handle}
    (member : node ∈ starts start decls) :
    ∃ place : Nat, node = place ∧ start ≤ place ∧ place < start + countAll decls := by
  induction decls generalizing start with
  | nil => simp [starts] at member
  | cons decl rest ih =>
      have positive := decl.count_pos
      rw [countAll]
      rw [starts] at member
      rcases List.mem_cons.mp member with rfl | later
      · exact ⟨start, rfl, by omega, by omega⟩
      · obtain ⟨place, rfl, le, lt⟩ := ih later
        exact ⟨place, rfl, by omega, by omega⟩

variable {tree : ScopeTree} {test : Test} {skip : Handle → Bool}

mutual

/-- The walk visits what is kept of a nest, and then follows the stack. -/
theorem descend_kept (decides : tree.Decides test skip) {parent : Option Nat} {start : Nat} :
    ∀ decl : Decl, decl.Planted tree parent start → start + decl.count ≤ tree.size →
      ∀ (bound : Nat) (stack : List Handle),
        descend (tree.successors test) ((decl.kept skip start).length + bound)
            ((start : Int) :: stack) =
          (descend (tree.successors test) bound stack).after (decl.kept skip start)
  | .declare head children, planted, fits, bound, stack => by
      rw [count] at fits
      have next_eq : tree.successors test (start : Int) =
          .ok ((starts (start + 1) children).filter fun node => !skip node) := by
        rw [successors, planted.children_eq]
        apply unskipped_eq_filter decides
        intro node member
        obtain ⟨place, rfl, -, lt⟩ := mem_starts member
        exact ⟨place, rfl, by omega⟩
      have enough : (kept skip start (.declare head children)).length + bound =
          ((keptAll skip (start + 1) children).length + bound) + 1 := by
        rw [kept, List.length_cons]
        omega
      rw [enough, descend, kept, Walk.after]
      simp only [next_eq]
      rw [descend_keptAll decides children planted.below (by omega) bound stack]
  | .foreign _, planted, _, _, _ => planted.elim

theorem descend_keptAll (decides : tree.Decides test skip) {parent start : Nat} :
    ∀ decls : List Decl, PlantedAll tree parent start decls →
      start + countAll decls ≤ tree.size →
      ∀ (bound : Nat) (stack : List Handle),
        descend (tree.successors test) ((keptAll skip start decls).length + bound)
            ((starts start decls).filter (fun node => !skip node) ++ stack) =
          (descend (tree.successors test) bound stack).after (keptAll skip start decls)
  | [], _, _, bound, stack => by
      simp [keptAll, starts, Walk.after]
  | decl :: rest, planted, fits, bound, stack => by
      rw [countAll] at fits
      have others := descend_keptAll decides rest planted.rest (by omega) bound stack
      rw [keptAll, starts]
      cases skipped : skip start with
      | true => simpa [skipped] using others
      | false =>
          have first := descend_kept decides decl planted.first (by omega)
            ((keptAll skip (start + decl.count) rest).length + bound)
            ((starts (start + decl.count) rest).filter (fun node => !skip node) ++ stack)
          rw [others, ← Walk.after_append] at first
          simpa [skipped, Nat.add_assoc] using first

end

end Decl

/-! ## The bound on a walk -/

theorem ScopeTree.le_widest (records : List Record) (widest : Nat) :
    widest ≤ records.foldl (fun widest record => max widest record.children.length) widest ∧
      ∀ record ∈ records, record.children.length ≤
        records.foldl (fun widest record => max widest record.children.length) widest := by
  induction records generalizing widest with
  | nil => simp
  | cons first rest ih =>
      obtain ⟨above, each⟩ := ih (max widest first.children.length)
      rw [List.foldl_cons]
      refine ⟨by omega, fun record member => ?_⟩
      rcases List.mem_cons.mp member with rfl | later
      · omega
      · exact each record later

theorem ScopeTree.length_children_le_breadth {tree : ScopeTree} {node : Handle}
    {listed : List Handle} (children_eq : tree.children node = .ok listed) :
    listed.length ≤ tree.breadth := by
  obtain ⟨record, record_eq, rfl⟩ := map_eq_ok_iff.mp children_eq
  obtain ⟨position, -, rfl⟩ := record_eq_ok_iff.mp record_eq
  have member : tree.records[position] ∈ tree.records.toList := by simp
  rw [breadth, ← Array.foldl_toList]
  exact (le_widest tree.records.toList 0).2 _ member

namespace Decl.Fills

variable {whole : Decl} {tree : ScopeTree}

theorem size_le_visitBound (fills : whole.Fills tree) : tree.size ≤ tree.visitBound := by
  rw [ScopeTree.visitBound]
  by_cases alone : tree.size = 1
  · rw [alone, Nat.pow_eq, Nat.pow_one]
    omega
  · have several : 1 < tree.size := by
      have : 0 < tree.size := tree.size_pos
      omega
    obtain ⟨parent, -, parent_lt, -, listed, children_eq, member⟩ :=
      fills.listed Nat.one_pos several
    have wide : listed.length ≤ tree.breadth :=
      ScopeTree.length_children_le_breadth children_eq
    have branching : 2 ≤ tree.breadth + 1 := by
      have := List.length_pos_of_mem member
      omega
    calc
      tree.size ≤ 2 ^ tree.size := Nat.le_of_lt Nat.lt_two_pow_self
      _ ≤ Nat.pow (tree.breadth + 1) tree.size := Nat.pow_le_pow_left branching _

/-- The walk below a node visits what is kept of the nest at the node. -/
theorem preorder_eq (fills : whole.Fills tree) {test : Test} {skip : Handle → Bool}
    (decides : tree.Decides test skip) {nest : Decl} {parent : Option Nat} {start : Nat}
    (planted : nest.Planted tree parent start) (within : start + nest.count ≤ tree.size) :
    tree.preorder test start = Walk.stop.after (nest.kept skip start) := by
  have enough : (nest.kept skip start).length ≤ tree.visitBound := by
    have := nest.length_kept_le skip start
    have := fills.size_le_visitBound
    omega
  obtain ⟨spare, bound_eq⟩ := Nat.exists_eq_add_of_le enough
  have descend_eq := descend_kept decides nest planted within spare []
  rw [← bound_eq] at descend_eq
  have stopped : ScopeTree.descend (tree.successors test) spare [] = Walk.stop := by
    cases spare <;> rfl
  rw [stopped] at descend_eq
  exact descend_eq

/-- The whole tree is visited in the order of its handles. -/
theorem iteration_eq (fills : whole.Fills tree) :
    tree.iteration = Walk.stop.after (handlesFrom 0 tree.size) := by
  have kept_eq : whole.kept (fun _ => false) 0 = handlesFrom 0 whole.count :=
    kept_eq_handlesFrom whole fills.planted fun _ _ _ => rfl
  have start_eq : ScopeTree.root = ((0 : Nat) : Int) := rfl
  rw [tree.iteration_eq_preorder, start_eq, fills.size_eq, ← kept_eq]
  exact fills.preorder_eq tree.decides_never fills.planted (by have := fills.size_eq; omega)

end Decl.Fills

end BinaryName
