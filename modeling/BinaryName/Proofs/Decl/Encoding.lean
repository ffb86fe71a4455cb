import BinaryName.Proofs.Decl.Unfolding
import BinaryName.Proofs.Tree.Descent

/-!
# Faithful layouts

The layout of an outline has one record for each entry that unfolding goes through, in that order.
The links of the records agree with each other, and the nest can be read back from them.
-/

namespace BinaryName

/-! ## Nodes and entries -/

namespace ScopeTree

/-- The node has the kind and the name of a head. -/
def Bears (tree : ScopeTree) (node : Handle) (entry : Except ValueSort Head) : Prop :=
  ∃ head, entry = .ok head ∧ tree.kind node = .ok head.kind ∧ tree.name node = .ok head.name

/-- The node has the kind and the name of the entry at a place. -/
def Copies (tree : ScopeTree) (outline : List Entry) (node : Handle) (place : Nat) : Prop :=
  ∃ head children, outline[place]? = some (.declaration head children) ∧
    tree.kind node = .ok head.kind ∧ tree.name node = .ok head.name

variable {tree : ScopeTree} {outline : List Entry}

theorem Bears.copies {node : Handle} {place : Nat} {entry : Entry}
    (bears : tree.Bears node entry.content)
    (entry_eq : outline[place]? = some entry) : tree.Copies outline node place := by
  obtain ⟨head, content_eq, kind_eq, name_eq⟩ := bears
  cases entry with
  | foreign sort => contradiction
  | declaration own children =>
      obtain rfl : own = head := Except.ok.inj content_eq
      exact ⟨own, children, entry_eq, kind_eq, name_eq⟩

/-- Nodes that bear the content of entries copy the places where the entries are. -/
theorem copies_of_bears {nodes : List Handle} {route : List Nat} {entries : List Entry}
    (bears : List.Forall₂ tree.Bears nodes (entries.map Entry.content))
    (route_eq : route.map (outline[·]?) = entries.map some) :
    List.Forall₂ (tree.Copies outline) nodes route := by
  induction entries generalizing nodes route with
  | nil =>
      obtain rfl := List.map_eq_nil_iff.mp route_eq
      cases bears
      exact .nil
  | cons entry rest ih =>
      obtain ⟨place, places, rfl, entry_eq, rest_eq⟩ := List.map_eq_cons_iff.mp route_eq
      cases bears with
      | cons first others => exact .cons (first.copies entry_eq) (ih others rest_eq)

end ScopeTree

namespace Decl

variable {tree : ScopeTree}

mutual

/-- The nodes of a planted nest bear its entries in turn. -/
theorem bears_entries {parent : Option Nat} {start : Nat} :
    ∀ decl : Decl, decl.Planted tree parent start →
      List.Forall₂ tree.Bears (handlesFrom start decl.count) decl.entries
  | .declare head children, planted => by
      rw [count, handlesFrom_succ, entries]
      exact .cons ⟨head, rfl, planted.kind_eq, planted.name_eq⟩
        (bears_entriesAll children planted.below)
  | .foreign _, planted => planted.elim

theorem bears_entriesAll {parent start : Nat} :
    ∀ decls : List Decl, PlantedAll tree parent start decls →
      List.Forall₂ tree.Bears (handlesFrom start (countAll decls)) (entriesAll decls)
  | [], _ => .nil
  | decl :: rest, planted => by
      rw [countAll, handlesFrom_add, entriesAll]
      exact List.rel_append (bears_entries decl planted.first) (bears_entriesAll rest planted.rest)

end

end Decl

/-! ## Reading a nest back -/

/-- The nest at a node, read off the records down to a depth. -/
def ScopeTree.nestWithin (tree : ScopeTree) : Nat → Handle → Except Fault Decl
  | 0, _ => .error .endless
  | depth + 1, node => do
      let record ← tree.record node
      let nested ← record.children.mapM (tree.nestWithin depth)
      pure
        (.declare { kind := record.kind, name := record.name, label := none, expected := none }
          nested)

/-- The nest at the root, read off the records.  No path down has more records than the tree. -/
def ScopeTree.nest (tree : ScopeTree) : Except Fault Decl :=
  tree.nestWithin tree.size ScopeTree.root

namespace Decl

mutual

/-- The nest without its labels and the expected names. -/
def unmarked : Decl → Decl
  | .declare head children =>
      .declare { head with label := none, expected := none } (unmarkedAll children)
  | .foreign sort => .foreign sort

/-- The nests without their labels and the expected names. -/
def unmarkedAll : List Decl → List Decl
  | [] => []
  | decl :: rest => decl.unmarked :: unmarkedAll rest

end

variable {tree : ScopeTree}

mutual

theorem nestWithin_eq {parent : Option Nat} {start depth : Nat} :
    ∀ decl : Decl, decl.Planted tree parent start → decl.count ≤ depth →
      tree.nestWithin depth (start : Int) = .ok decl.unmarked
  | .declare head children, planted, enough => by
      rw [count] at enough
      obtain ⟨depth, rfl⟩ : ∃ less, depth = less + 1 := ⟨depth - 1, by omega⟩
      have below := mapM_nestWithin children planted.below (by omega : countAll children ≤ depth)
      rw [ScopeTree.nestWithin, planted.record_eq]
      simp only [bind, Except.bind, Head.record, below]
      rfl
  | .foreign _, planted, _ => planted.elim

theorem mapM_nestWithin {parent start depth : Nat} :
    ∀ decls : List Decl, PlantedAll tree parent start decls → countAll decls ≤ depth →
      (starts start decls).mapM (tree.nestWithin depth) = .ok (unmarkedAll decls)
  | [], _, _ => rfl
  | decl :: rest, planted, enough => by
      rw [countAll] at enough
      have first := nestWithin_eq decl planted.first (by omega : decl.count ≤ depth)
      have others := mapM_nestWithin rest planted.rest (by omega : countAll rest ≤ depth)
      rw [starts, List.mapM_cons, others]
      change tree.nestWithin depth (start : Int) >>= _ = _
      rw [first]
      rfl

end

theorem Fills.nest_eq {whole : Decl} (fills : whole.Fills tree) : tree.nest = .ok whole.unmarked :=
  nestWithin_eq whole fills.planted (Nat.le_of_eq fills.size_eq.symm)

/-! ## Links -/

theorem nodup_starts (start : Nat) (decls : List Decl) : (starts start decls).Nodup := by
  induction decls generalizing start with
  | nil => exact .nil
  | cons decl rest ih =>
      apply List.nodup_cons.mpr
      constructor
      · intro member
        obtain ⟨place, place_eq, le_place, -⟩ := mem_starts member
        have positive := decl.count_pos
        have same : start = place := Int.ofNat_inj.mp place_eq
        omega
      · exact ih (start + decl.count)

theorem parent_of_mem_starts {parent start : Nat} {decls : List Decl} {node : Handle}
    (planted : PlantedAll tree parent start decls) (member : node ∈ starts start decls) :
    tree.parent node = .ok (some (parent : Int)) := by
  induction decls generalizing start with
  | nil => simp [starts] at member
  | cons decl rest ih =>
      cases member with
      | head => exact planted.first.parent_eq
      | tail _ later => exact ih planted.rest later

end Decl

/-- The node comes after its parent.  Of all records that of the parent alone lists the node, and
lists it once. -/
def ScopeTree.ListedOnce (tree : ScopeTree) (node : Nat) : Prop :=
  ∃ parent : Nat, parent < node ∧ tree.parent (node : Int) = .ok (some (parent : Int)) ∧
    ∀ above : Nat, above < tree.size → ∃ listed, tree.children (above : Int) = .ok listed ∧
      listed.count (node : Int) = if above = parent then 1 else 0

theorem Decl.Fills.listedOnce {whole : Decl} {tree : ScopeTree} (fills : whole.Fills tree)
    {node : Nat} (positive : 0 < node) (inside : node < tree.size) : tree.ListedOnce node := by
  obtain ⟨parent, -, parent_lt, parent_eq, listed, children_eq, member⟩ :=
    fills.listed positive inside
  refine ⟨parent, parent_lt, parent_eq, ?_⟩
  intro above above_inside
  obtain ⟨head, children, around, planted, -⟩ := fills.exists_declared_at above_inside
  refine ⟨_, planted.children_eq, ?_⟩
  rw [(nodup_starts (above + 1) children).count]
  by_cases same : above = parent
  · subst same
    have listed_eq := Except.ok.inj (planted.children_eq.symm.trans children_eq)
    rw [if_pos rfl, if_pos (listed_eq ▸ member)]
  · rw [if_neg same, if_neg]
    intro also
    have other_eq := parent_of_mem_starts planted.below also
    rw [parent_eq] at other_eq
    exact same (Int.ofNat_inj.mp (Option.some.inj (Except.ok.inj other_eq))).symm

/-! ## The whole tree -/

theorem Decl.Fills.nodes_iteration {whole : Decl} {tree : ScopeTree} (fills : whole.Fills tree) :
    tree.iteration.nodes = .ok tree.handles := by
  rw [fills.iteration_eq, Walk.nodes_stop_after, tree.handles_eq]

/-- The layout of an acyclic outline copies the entries that unfolding goes through, one record for
each in the same order.  The nest can be read back, each node but the first is listed once and by
its parent, and the walk through the tree has the handles in order. -/
theorem Outline.layout_encodes_unfolding {outline : List Entry} (acyclic : Acyclic outline) :
    ∃ decl, toDecl? outline = some decl ∧ ∀ built, decl.layout = .ok built →
      (∃ route, Visits outline [0] route ∧
          List.Forall₂ (built.tree.Copies outline) built.tree.handles route) ∧
        built.tree.nest = .ok decl.unmarked ∧
        (∀ node : Nat, 0 < node → node < built.tree.size → built.tree.ListedOnce node) ∧
        built.tree.iteration.nodes = .ok built.tree.handles := by
  obtain ⟨decl, route, entries, unfolds, visits, route_eq, content_eq⟩ := acyclic.exists_visits
  refine ⟨decl, unfolds, fun built laid => ?_⟩
  have fills := Decl.fills_of_layout laid
  refine ⟨⟨route, visits, ?_⟩, fills.nest_eq, fun node => fills.listedOnce, fills.nodes_iteration⟩
  have bears := Decl.bears_entries decl fills.planted
  rw [← content_eq] at bears
  rw [built.tree.handles_eq, fills.size_eq]
  exact ScopeTree.copies_of_bears bears route_eq

/-- A file that names a class twice and, between, the function that is in the class. -/
def sharedEntries : List Entry :=
  [.declaration (.unmarked .file "a.kt") [1, 2, 1], .declaration (.unmarked .klass "A") [2],
    .declaration (.unmarked .function "f") []]

/-- The class is copied twice, the function three times. -/
theorem Outline.layout_encodes_unfolding_sharedEntries :
    ∃ decl built, toDecl? sharedEntries = some decl ∧ decl.layout = .ok built ∧
      built.tree.size = 6 ∧ (∃ route, Visits sharedEntries [0] route ∧
        List.Forall₂ (built.tree.Copies sharedEntries) built.tree.handles route) ∧
      built.tree.nest = .ok decl.unmarked ∧ built.tree.ListedOnce 5 ∧
      built.tree.iteration.nodes = .ok [0, 1, 2, 3, 4, 5] := by
  let function : Decl :=
    .declare (.unmarked .function "f") []
  let klass : Decl :=
    .declare (.unmarked .klass "A") [function]
  let decl : Decl :=
    .declare (.unmarked .file "a.kt") [klass, function, klass]
  let tree : ScopeTree :=
    { records :=
        #[{ kind := .file, name := some "a.kt", parent := none, children := [1, 3, 4] },
          { kind := .klass, name := some "A", parent := some 0, children := [2] },
          { kind := .function, name := some "f", parent := some 1, children := [] },
          { kind := .function, name := some "f", parent := some 0, children := [] },
          { kind := .klass, name := some "A", parent := some 0, children := [5] },
          { kind := .function, name := some "f", parent := some 4, children := [] }]
      size_pos := by decide
      parent_root := rfl }
  have unfolds : toDecl? sharedEntries = some decl := rfl
  have laid : decl.layout = .ok (.ofTree tree) := (Decl.layout_eq decl).trans rfl
  have acyclic : Acyclic sharedEntries := acyclic_of_forward (by decide) (by decide)
  obtain ⟨given, given_eq, encodes⟩ := layout_encodes_unfolding acyclic
  obtain rfl : decl = given := Option.some.inj (unfolds.symm.trans given_eq)
  obtain ⟨route, nest_eq, listed, nodes_eq⟩ := encodes _ laid
  exact ⟨decl, .ofTree tree, unfolds, laid, rfl, route, nest_eq, listed 5 (by decide) (by decide),
    nodes_eq⟩

end BinaryName
