import Mathlib.Algebra.Order.BigOperators.Group.List
import BinaryName.Proofs.Tree.Descent

/-!
# Walks down any tree

Where no record is below itself, a walk with a stack comes to its end within its bound: each node of
the stack has a weight that pays for the visit and for the weights of its children, and the bound
covers the weight of the start.  So the walk breaks only at a node that it cannot leave, and it
visits nothing but the start and what is listed below it.
-/

namespace BinaryName

/-- The test is made without a fault, and the node passes. -/
def Test.holds (test : Test) (node : Handle) : Bool :=
  match test node with
  | .ok passes => passes
  | .error _ => false

/-- The walk visits nodes that it leaves for their successors.  It breaks where a node cannot be
left, with the fault that says why, and nowhere else. -/
inductive Walk.Expands (successors : Handle → Except Fault (List Handle)) : Walk → Prop
  | stop : Expands successors .stop
  | visit {node : Handle} {rest : Unit → Walk}
      (goesOn : ∀ next, successors node = .ok next → Expands successors (rest ()))
      (breaks : ∀ fault, successors node = .error fault → rest () = .broken fault) :
      Expands successors (.visit node rest)

variable {successors : Handle → Except Fault (List Handle)}

theorem Walk.Expands.fault?_eq_none {walk : Walk} (expands : walk.Expands successors)
    (left : ∀ node ∈ walk.visited, ∃ next, successors node = .ok next) : walk.fault? = none := by
  induction expands with
  | stop => rfl
  | @visit node rest _ _ ih =>
      obtain ⟨next, next_eq⟩ := left node List.mem_cons_self
      exact ih next next_eq fun other member => left other (List.mem_cons_of_mem _ member)

/-- Only what is on the stack, and what succeeds a visited node, is visited. -/
theorem descend_induction {motive : Handle → Prop}
    (succeeds : ∀ node next, motive node → successors node = .ok next →
      ∀ other ∈ next, motive other)
    {bound : Nat} {stack : List Handle} (starts : ∀ node ∈ stack, motive node) :
    ∀ node ∈ (ScopeTree.descend successors bound stack).visited, motive node := by
  induction bound generalizing stack with
  | zero => cases stack <;> simp [ScopeTree.descend, Walk.visited]
  | succ bound ih =>
      cases stack with
      | nil => simp [ScopeTree.descend, Walk.visited]
      | cons top stack =>
          obtain ⟨first, others⟩ := List.forall_mem_cons.mp starts
          rw [ScopeTree.descend, Walk.visited]
          refine List.forall_mem_cons.mpr ⟨first, ?_⟩
          cases next_eq : successors top with
          | error fault => simp [Walk.visited]
          | ok next =>
              apply ih
              intro node member
              rcases List.mem_append.mp member with new | old
              · exact succeeds top next first next_eq node new
              · exact others node old

namespace ScopeTree

variable {tree : ScopeTree}

/-! ## Weights -/

/-- A bound on the number of visits that a node on the stack leads to. -/
noncomputable def weight (tree : ScopeTree) (node : Handle) : Nat :=
  (tree.breadth + 1) ^ tree.height tree.ListsChild node

theorem weight_pos (tree : ScopeTree) (node : Handle) : 0 < tree.weight node :=
  Nat.pow_pos (Nat.succ_pos _)

theorem weight_le_visitBound (loopless : Loopless tree.ListsChild) (node : Handle) :
    tree.weight node ≤ tree.visitBound :=
  Nat.pow_le_pow_right (Nat.succ_pos _) (height_le_size loopless node)

/-- The weight of a node covers those of its children and one visit more. -/
theorem sum_weight_children_lt (loopless : Loopless tree.ListsChild) {node : Handle}
    {listed : List Handle} (children_eq : tree.children node = .ok listed) :
    (listed.map tree.weight).sum < tree.weight node := by
  cases height_eq : tree.height tree.ListsChild node with
  | zero =>
      have none_listed : listed = [] := by
        rw [List.eq_nil_iff_forall_not_mem]
        intro child member
        have lower := height_child_lt loopless children_eq member
        omega
      simpa [none_listed] using tree.weight_pos node
  | succ height =>
      have each : ∀ weight ∈ listed.map tree.weight, weight ≤ (tree.breadth + 1) ^ height := by
        intro weight member
        obtain ⟨child, child_member, rfl⟩ := List.mem_map.mp member
        have lower := height_child_lt loopless children_eq child_member
        exact Nat.pow_le_pow_right (Nat.succ_pos _) (by omega)
      have narrow := length_children_le_breadth children_eq
      calc
        (listed.map tree.weight).sum
            ≤ listed.length * (tree.breadth + 1) ^ height := by
              simpa using List.sum_le_card_nsmul _ _ each
        _ ≤ tree.breadth * (tree.breadth + 1) ^ height := Nat.mul_le_mul_right _ narrow
        _ < tree.breadth * (tree.breadth + 1) ^ height + (tree.breadth + 1) ^ height :=
              Nat.lt_add_of_pos_right (Nat.pow_pos (Nat.succ_pos _))
        _ = tree.weight node := by rw [weight, height_eq, Nat.pow_succ, Nat.mul_add, Nat.mul_one,
              Nat.mul_comm]

/-- So it covers those of some of its children. -/
theorem sum_weight_lt_of_sublist (loopless : Loopless tree.ListsChild) {node : Handle}
    {listed next : List Handle} (children_eq : tree.children node = .ok listed)
    (sublist : next.Sublist listed) : (next.map tree.weight).sum < tree.weight node := by
  have lighter : (next.map tree.weight).sum ≤ (listed.map tree.weight).sum :=
    (sublist.map tree.weight).sum_le_sum fun _ _ => Nat.zero_le _
  exact Nat.lt_of_le_of_lt lighter (sum_weight_children_lt loopless children_eq)

/-- A walk down a tree whose bound covers the weight of its stack. -/
theorem descend_expands (loopless : Loopless tree.ListsChild)
    (among : ∀ node next, successors node = .ok next →
      ∃ listed, tree.children node = .ok listed ∧ next.Sublist listed)
    {bound : Nat} {stack : List Handle} (enough : (stack.map tree.weight).sum ≤ bound) :
    (descend successors bound stack).Expands successors := by
  induction bound generalizing stack with
  | zero =>
      cases stack with
      | nil => exact .stop
      | cons top stack =>
          have positive := tree.weight_pos top
          rw [List.map_cons, List.sum_cons] at enough
          omega
  | succ bound ih =>
      cases stack with
      | nil => exact .stop
      | cons top stack =>
          rw [List.map_cons, List.sum_cons] at enough
          rw [descend]
          constructor
          · intro next next_eq
            obtain ⟨listed, children_eq, sublist⟩ := among top next next_eq
            have covered := sum_weight_lt_of_sublist loopless children_eq sublist
            simp only [next_eq]
            apply ih
            rw [List.map_append, List.sum_append]
            omega
          · intro fault failed
            simp only [failed]

theorem unskipped_sublist {skip : Test} {nodes kept : List Handle}
    (kept_eq : unskipped skip nodes = .ok kept) : kept.Sublist nodes := by
  induction nodes generalizing kept with
  | nil =>
      obtain rfl : [] = kept := Except.ok.inj kept_eq
      exact .slnil
  | cons node rest ih =>
      rw [unskipped] at kept_eq
      obtain ⟨skipped, -, kept_eq⟩ := bind_eq_ok_iff.mp kept_eq
      obtain ⟨others, others_eq, kept_eq⟩ := bind_eq_ok_iff.mp kept_eq
      have sublist := ih others_eq
      cases skipped with
      | true =>
          obtain rfl : others = kept := Except.ok.inj kept_eq
          exact sublist.cons node
      | false =>
          obtain rfl : node :: others = kept := Except.ok.inj kept_eq
          exact sublist.cons_cons node

theorem successors_among {skip : Test} {node : Handle} {next : List Handle}
    (next_eq : tree.successors skip node = .ok next) :
    ∃ listed, tree.children node = .ok listed ∧ next.Sublist listed := by
  rw [successors] at next_eq
  obtain ⟨listed, listed_eq, next_eq⟩ := bind_eq_ok_iff.mp next_eq
  exact ⟨listed, listed_eq, unskipped_sublist next_eq⟩

theorem sum_weight_successors_lt (loopless : Loopless tree.ListsChild) {skip : Test} {node : Handle}
    {next : List Handle} (next_eq : tree.successors skip node = .ok next) :
    (next.map tree.weight).sum < tree.weight node := by
  obtain ⟨listed, children_eq, sublist⟩ := successors_among next_eq
  exact sum_weight_lt_of_sublist loopless children_eq sublist

/-- The walk below a node breaks only where a node cannot be left. -/
theorem preorder_expands (loopless : Loopless tree.ListsChild) (skip : Test) (start : Handle) :
    (tree.preorder skip start).Expands (tree.successors skip) := by
  have covered := weight_le_visitBound loopless start
  exact descend_expands loopless (fun _ _ => successors_among) (by simpa using covered)

/-- The walk of the whole tree breaks only at a node without a record. -/
theorem iteration_expands (loopless : Loopless tree.ListsChild) :
    tree.iteration.Expands tree.children := by
  have covered := weight_le_visitBound loopless root
  exact descend_expands loopless (fun _ next next_eq => ⟨next, next_eq, List.Sublist.refl next⟩)
    (by simpa using covered)

end ScopeTree

end BinaryName
