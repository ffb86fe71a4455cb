import BinaryName.Fault

/-!
# Registers

A register assigns values to nodes and keeps the order in which the nodes arrived.  A node that
arrives again gets a new value at its old place.
-/

namespace BinaryName

/-- Values of nodes, in order of first arrival. -/
structure Register (ν : Type) where
  /-- The nodes with their values. -/
  entries : List (Handle × ν)
  deriving DecidableEq, Repr

namespace Register

variable {ν : Type}

/-- No node has arrived. -/
def empty : Register ν := { entries := [] }

/-- The nodes that have arrived. -/
def nodes (register : Register ν) : List Handle := register.entries.map Prod.fst

/-- The number of nodes that have arrived. -/
def size (register : Register ν) : Nat := register.entries.length

/-- The value of a node. -/
def get? (register : Register ν) (node : Handle) : Option ν :=
  (register.entries.find? (·.1 == node)).map Prod.snd

/-- The entries with another value for a node. -/
def revalue (node : Handle) (value : ν) (entries : List (Handle × ν)) : List (Handle × ν) :=
  entries.map fun entry => if entry.1 = node then (node, value) else entry

/-- The register after a node has arrived. -/
def put (register : Register ν) (node : Handle) (value : ν) : Register ν :=
  if register.entries.any (·.1 == node) then
    { entries := revalue node value register.entries }
  else
    { entries := register.entries ++ [(node, value)] }

@[simp] theorem nodes_empty : (empty : Register ν).nodes = [] := rfl

@[simp] theorem size_empty : (empty : Register ν).size = 0 := rfl

@[simp] theorem get?_empty (node : Handle) : (empty : Register ν).get? node = none := rfl

@[simp] theorem length_nodes (register : Register ν) : register.nodes.length = register.size := by
  simp [nodes, size]

theorem any_entries_iff (register : Register ν) (node : Handle) :
    register.entries.any (·.1 == node) = true ↔ node ∈ register.nodes := by
  simp [nodes]

theorem revalue_cons (node : Handle) (value : ν) (entry : Handle × ν) (rest : List (Handle × ν)) :
    revalue node value (entry :: rest) =
      (if entry.1 = node then (node, value) else entry) :: revalue node value rest := rfl

@[simp] theorem map_fst_revalue (node : Handle) (value : ν) (entries : List (Handle × ν)) :
    (revalue node value entries).map Prod.fst = entries.map Prod.fst := by
  induction entries with
  | nil => rfl
  | cons entry rest ih =>
      rw [revalue_cons, List.map_cons, List.map_cons, ih]
      by_cases same : entry.1 = node
      · rw [if_pos same, same]
      · rw [if_neg same]

theorem find?_revalue_self {node : Handle} {entries : List (Handle × ν)}
    (met : node ∈ entries.map Prod.fst) (value : ν) :
    (revalue node value entries).find? (·.1 == node) = some (node, value) := by
  induction entries with
  | nil => simp at met
  | cons entry rest ih =>
      rw [revalue_cons]
      by_cases here : entry.1 = node
      · simp [here]
      · rw [List.map_cons, List.mem_cons] at met
        have later := met.resolve_left fun equal => here equal.symm
        simp [here, ih later]

theorem find?_revalue_of_ne {node other : Handle} (differ : other ≠ node) (value : ν)
    (entries : List (Handle × ν)) :
    (revalue node value entries).find? (·.1 == other) = entries.find? (·.1 == other) := by
  induction entries with
  | nil => rfl
  | cons entry rest ih =>
      rw [revalue_cons, List.find?_cons, List.find?_cons, ih]
      by_cases replaced : entry.1 = node
      · have passed : (node == other) = false := beq_false_of_ne (Ne.symm differ)
        simp [replaced, passed]
      · rw [if_neg replaced]

theorem put_of_mem {register : Register ν} {node : Handle} (met : node ∈ register.nodes)
    (value : ν) : register.put node value = { entries := revalue node value register.entries } :=
  if_pos ((register.any_entries_iff node).mpr met)

theorem put_of_notMem {register : Register ν} {node : Handle} (new : node ∉ register.nodes)
    (value : ν) : register.put node value = { entries := register.entries ++ [(node, value)] } :=
  if_neg fun found => new ((register.any_entries_iff node).mp found)

/-- A node has the value it got last. -/
theorem get?_put (register : Register ν) (node other : Handle) (value : ν) :
    (register.put node value).get? other =
      if other = node then some value else register.get? other := by
  by_cases met : node ∈ register.nodes
  · rw [put_of_mem met, get?, get?]
    by_cases same : other = node
    · rw [if_pos same, same, find?_revalue_self met]
      rfl
    · rw [if_neg same, find?_revalue_of_ne same]
  · rw [put_of_notMem met, get?, get?, List.find?_append]
    by_cases same : other = node
    · have absent : register.entries.find? (·.1 == node) = none := by
        rw [List.find?_eq_none]
        intro entry member found
        exact met (eq_of_beq found ▸ List.mem_map_of_mem member)
      rw [if_pos same, same, absent]
      simp
    · have passed : node ≠ other := fun equal => same equal.symm
      rw [if_neg same]
      simp [passed]

/-- A node that arrives again keeps its place, a new one comes last. -/
theorem nodes_put (register : Register ν) (node : Handle) (value : ν) :
    (register.put node value).nodes =
      if node ∈ register.nodes then register.nodes else register.nodes ++ [node] := by
  by_cases met : node ∈ register.nodes
  · rw [put_of_mem met, if_pos met, nodes, map_fst_revalue, nodes]
  · rw [put_of_notMem met, if_neg met]
    simp [nodes]

/-- Nodes that arrive one after the other stand in the order of their first arrivals. -/
theorem nodes_foldl {arrive : Register ν → Handle → Register ν}
    (arrives : ∀ register node, (arrive register node).nodes =
      if node ∈ register.nodes then register.nodes else register.nodes ++ [node])
    (arrivals : List Handle) : (arrivals.foldl arrive empty).nodes = arrivals.eraseDups := by
  have after : ∀ (later earlier : List Handle) (register : Register ν),
      register.nodes = earlier.eraseDups →
      (later.foldl arrive register).nodes = (earlier ++ later).eraseDups := by
    intro later
    induction later with
    | nil => intro earlier register nodes_eq; simpa using nodes_eq
    | cons node later ih =>
        intro earlier register nodes_eq
        have next := ih (earlier ++ [node]) (arrive register node) <| by
          rw [arrives, nodes_eq, List.eraseDups_append]
          by_cases met : node ∈ earlier <;> simp [met, List.removeAll, List.eraseDups_cons]
        simpa using next
  simpa using after arrivals [] empty rfl

/-- Where every node arrives with a value of its own, it has that value in the end. -/
theorem get?_foldl_put {value : Handle → ν} {node : Handle} {arrivals : List Handle}
    (register : Register ν)
    (arrived : node ∈ arrivals ∨ register.get? node = some (value node)) :
    (arrivals.foldl (fun register node => register.put node (value node)) register).get? node =
      some (value node) := by
  induction arrivals generalizing register with
  | nil => exact arrived.resolve_left List.not_mem_nil
  | cons first later ih =>
      rw [List.foldl_cons]
      apply ih
      rw [get?_put]
      by_cases same : node = first
      · exact Or.inr (by rw [if_pos same, same])
      · rw [if_neg same]
        exact arrived.imp_left fun member => (List.mem_cons.mp member).resolve_left same

theorem nodup_put {register : Register ν} (distinct : register.nodes.Nodup) (node : Handle)
    (value : ν) : (register.put node value).nodes.Nodup := by
  rw [nodes_put]
  by_cases met : node ∈ register.nodes
  · rwa [if_pos met]
  · rw [if_neg met, List.nodup_append]
    refine ⟨distinct, by simp, ?_⟩
    intro other member _ single same
    rw [List.mem_singleton.mp single] at same
    exact met (same ▸ member)

/-- Where no node has arrived twice, each has the value of its entry. -/
theorem get?_of_mem {register : Register ν} (distinct : register.nodes.Nodup) {node : Handle}
    {value : ν} (member : (node, value) ∈ register.entries) : register.get? node = some value := by
  obtain ⟨before, after, split⟩ := List.append_of_mem member
  have none_before : before.find? (·.1 == node) = none := by
    rw [nodes, split, List.map_append, List.nodup_append] at distinct
    rw [List.find?_eq_none]
    intro entry entry_member found
    exact distinct.2.2 entry.1 (List.mem_map_of_mem entry_member) node (by simp) (eq_of_beq found)
  rw [get?, split, List.find?_append, none_before]
  simp

end Register

end BinaryName
