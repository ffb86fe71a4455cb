import Mathlib.Logic.Function.Basic
import BinaryName.Proofs.Cache.Recency

/-!
# How deep naming goes

The resolution of a node turns on that of the nearest base around it, that of a base on a class, and
that of a class on no other.  So the activations of naming are nested three deep at most, however
deep the tree is.  A node and the base around it are in the same scope, hence all numberings that
are asked for in the course of a naming are that of one root.
-/

namespace BinaryName

/-! ## Inquiries about one scope -/

namespace Inquiry

variable {α β : Type} {inquiry : Inquiry α} {root : Handle}

/-- Whatever numberings are given out, no other is asked for than that of the root. -/
def AsksOnly (root : Handle) : Inquiry α → Prop
  | .answer _ | .fail _ => True
  | .ask asked next => asked = root ∧ ∀ numbering, (next numbering).AsksOnly root

theorem Silent.asksOnly (silent : inquiry.Silent) (root : Handle) : inquiry.AsksOnly root := by
  obtain ⟨outcome, rfl⟩ := silent
  cases outcome <;> exact trivial

theorem AsksOnly.bind (asks : inquiry.AsksOnly root) {next : α → Inquiry β}
    (later : ∀ value, (next value).AsksOnly root) : (inquiry >>= next).AsksOnly root := by
  induction inquiry with
  | answer value => exact later value
  | fail fault => exact trivial
  | ask asked following ih => exact ⟨asks.1, fun numbering => ih numbering (asks.2 numbering)⟩

/-- Only what comes after an outcome that is a value has to keep to the root. -/
theorem asksOnly_bind {outcome : Except Fault α} {next : α → Inquiry β}
    (later : ∀ value, outcome = .ok value → (next value).AsksOnly root) :
    ((liftM outcome : Inquiry α) >>= next).AsksOnly root := by
  cases outcome with
  | error fault => exact trivial
  | ok value => exact later value rfl

end Inquiry

namespace NumberingCache

variable {σ : Type} [BoundedCache σ Scope Numbering] {view : CacheView σ Scope Numbering}
    {cache : σ}
  {place : Nat} {tree : ScopeTree} {root : Handle} {scope : Scope}

/-- A request for a numbering brings no other scope in. -/
theorem mem_keys_fetch (lru : view.LeastRecentlyUsed)
    (member : scope ∈ view.keys (fetch cache place tree root).2) :
    scope ∈ view.keys cache ∨ scope = ⟨place, root⟩ := by
  obtain ⟨entry, entry_member, rfl⟩ := List.mem_map.mp member
  rcases (fetched lru cache place tree root).mem_recency entry_member with older | ⟨scope_eq, -⟩
  · exact Or.inl (List.mem_map_of_mem older)
  · exact Or.inr scope_eq

/-- An inquiry about one scope brings no other scope in. -/
theorem mem_keys_run (lru : view.LeastRecentlyUsed) {α : Type} {inquiry : Inquiry α}
    (asks : inquiry.AsksOnly root)
    (member : scope ∈ view.keys (run place tree inquiry cache).2) :
    scope ∈ view.keys cache ∨ scope = ⟨place, root⟩ := by
  induction inquiry generalizing cache with
  | answer value => exact Or.inl member
  | fail fault => exact Or.inl member
  | ask asked next ih =>
      obtain ⟨rfl, later⟩ := asks
      cases fetched_eq : fetch cache place tree asked with
      | mk outcome after =>
          have brought_in : scope ∈ view.keys after →
              scope ∈ view.keys cache ∨ scope = ⟨place, asked⟩ := by
            have fetch_keys := @mem_keys_fetch σ _ view cache place tree asked scope lru
            rwa [fetched_eq] at fetch_keys
          rw [run, fetched_eq] at member
          cases outcome with
          | error fault => exact brought_in member
          | ok numbering =>
              rcases ih numbering (later numbering) member with kept | same
              · exact brought_in kept
              · exact Or.inr same

end NumberingCache

namespace ScopeTree

open Inquiry

variable {tree : ScopeTree} {node other root : Handle}

/-! ## The scope of a node and of the base around it -/

/-- A member function is no top-level declaration. -/
theorem isTopLevel_of_member (member : tree.plays .memberFunction node = .ok true) :
    tree.isTopLevel node = .ok false := by
  obtain ⟨parent, parent_eq, klass⟩ := exists_klass_of_member member
  have kind_eq := kind_of_isPlaced member
  have above_eq : tree.parentKind node = .ok (some .klass) := by
    rw [parentKind, parent_eq]
    simp [bind, Except.bind, klass, Functor.map, Except.map]
  rw [isTopLevel, Test.either, plays, plays, isPlaced, isPlaced, hasKind_of_kind kind_eq,
    hasKind_of_kind kind_eq, above_eq]
  rfl

/-- What is no base is no top-level declaration. -/
theorem isTopLevel_of_not_isBase (other : tree.isBase node = .ok false) :
    tree.isTopLevel node = .ok false := by
  rw [isBase, Test.either] at other
  obtain ⟨klass, klass_eq, other⟩ := bind_eq_ok_iff.mp other
  cases klass with
  | true => simp [pure, Except.pure] at other
  | false =>
      have not_class : tree.plays .topLevelClass node = .ok false := by
        rw [plays, isPlaced, klass_eq]
        rfl
      rw [if_neg Bool.false_ne_true, isNonlocal, Test.either] at other
      obtain ⟨top, top_eq, other⟩ := bind_eq_ok_iff.mp other
      cases top with
      | true => simp [pure, Except.pure] at other
      | false =>
          rw [isTopLevel, Test.either, not_class]
          exact top_eq

/-- A search for the top-level declaration goes past a base that is none itself. -/
theorem nearestAbove_isTopLevel_of_isBase (loopless : Loopless tree.NamesParent) {base : Handle}
    (nearest : tree.nearestAbove tree.isBase node = .ok (some base))
    (inner : tree.isTopLevel base = .ok false) :
    tree.nearestAbove tree.isTopLevel node = tree.nearestAbove tree.isTopLevel base := by
  induction depth : tree.height tree.NamesParent node using Nat.strongRecOn generalizing node with
  | ind depth ih =>
      obtain ⟨parent, parent_eq, -⟩ :=
        exists_parent_of_mem_ancestors (Walk.mem_visited_of_findM? nearest).1
      have lower := height_parent_lt loopless parent_eq
      rw [nearestAbove_of_parent _ parent_eq, nearestFrom_eq loopless] at nearest
      rw [nearestAbove_of_parent _ parent_eq, nearestFrom_eq loopless]
      obtain ⟨passes, passes_eq, nearest⟩ := bind_eq_ok_iff.mp nearest
      cases passes with
      | true =>
          obtain rfl : parent = base := Option.some.inj (Except.ok.inj nearest)
          rw [inner]
          rfl
      | false =>
          rw [isTopLevel_of_not_isBase passes_eq]
          exact ih _ (by omega) nearest rfl

/-! ## What a naming asks for -/

theorem asksOnly_indexOf (only : ∀ given, tree.scopeOf node = .ok given → given = root) :
    (tree.indexOf node).AsksOnly root := by
  rw [indexOf]
  apply asksOnly_bind
  intro anonymous _
  cases anonymous with
  | true =>
      apply asksOnly_bind
      intro given given_eq
      have asked : (Inquiry.numbering given).AsksOnly root :=
        ⟨only given given_eq, fun _ => trivial⟩
      apply asked.bind
      intro numbering
      cases numbering.get? node with
      | some index => exact trivial
      | none => exact (silent_liftM _).asksOnly root
  | false =>
      apply asksOnly_bind
      intro caption _
      exact trivial

variable {around : Handle → Inquiry Resolution}

theorem asksOnly_ofAnonymous (only : ∀ given, tree.scopeOf node = .ok given → given = root)
    (outer : ∀ base, tree.nearestAbove tree.isBase node = .ok (some base) →
      (around base).AsksOnly root) :
    (Resolution.ofAnonymous tree around node).AsksOnly root := by
  rw [Resolution.ofAnonymous]
  apply asksOnly_bind
  intro found nearest
  cases found with
  | none => exact (silent_liftM _).asksOnly root
  | some base =>
      apply (asksOnly_indexOf only).bind
      intro index
      apply (outer base nearest).bind
      intro resolution
      exact trivial

theorem asksOnly_ofFunction (only : ∀ given, tree.scopeOf node = .ok given → given = root)
    (outer : ∀ base, tree.nearestAbove tree.isBase node = .ok (some base) →
      (around base).AsksOnly root) :
    (Resolution.ofFunction tree around node).AsksOnly root := by
  have rule := Resolution.functionRule_ofFunction tree around node
  generalize Resolution.ofFunction tree around node = inquiry at rule ⊢
  cases rule with
  | silent silent => exact silent.asksOnly root
  | anonymous not_top inner => exact asksOnly_ofAnonymous only outer
  | member parent_eq klass outside =>
      apply (outer _ (nearestAbove_isBase_of_klass parent_eq klass)).bind
      intro resolution
      exact trivial

/-- A rule asks for the scope of the node, and for what the base around it asks for. -/
theorem asksOnly_ofNode (only : ∀ given, tree.scopeOf node = .ok given → given = root)
    (outer : ∀ base, tree.nearestAbove tree.isBase node = .ok (some base) →
      (around base).AsksOnly root) :
    (Resolution.ofNode tree around node).AsksOnly root := by
  cases kind_eq : tree.kind node with
  | error fault =>
      rw [Resolution.ofNode, kind_eq]
      exact trivial
  | ok kind =>
      cases kind with
      | klass =>
          rw [Resolution.ofNode_klass kind_eq]
          exact (silent_liftM _).asksOnly root
      | function =>
          rw [Resolution.ofNode_function kind_eq]
          exact asksOnly_ofFunction only outer
      | lambda =>
          rw [Resolution.ofNode_lambda kind_eq]
          exact asksOnly_ofAnonymous only outer
      | file | package =>
          rw [Resolution.ofNode, kind_eq, Resolution.liftM_ok, pure_bind]
          exact asksOnly_bind fun caption _ => trivial
      | unknown tag =>
          rw [Resolution.ofNode_plain kind_eq]
          exact trivial

theorem silent_resolve_of_klass (klass : tree.kind node = .ok .klass) :
    (tree.resolve node).Silent := by
  rw [resolve_eq, Resolution.ofNode_klass klass]
  exact silent_liftM _

/-- All numberings that naming a node asks for are that of one root. -/
theorem exists_asksOnly_resolve (loopless : Loopless tree.NamesParent) (node : Handle) :
    ∃ root, (tree.resolve node).AsksOnly root := by
  obtain ⟨root, only⟩ : ∃ root, ∀ given, tree.scopeOf node = .ok given → given = root := by
    cases scope_eq : tree.scopeOf node with
    | error fault => exact ⟨0, by simp⟩
    | ok root => exact ⟨root, fun given same => (Except.ok.inj same).symm⟩
  refine ⟨root, ?_⟩
  rw [resolve_eq]
  refine asksOnly_ofNode only fun base nearest => ?_
  rcases Resolution.isBase_cases_of_passes (Walk.mem_visited_of_findM? nearest).2 with
    klass | top | member
  · exact (silent_resolve_of_klass klass).asksOnly root
  · exact (Unnumbered.silent (Or.inr top)).asksOnly root
  · -- A member function may be local, and is then numbered in the scope of the node.
    have same_top :=
      nearestAbove_isTopLevel_of_isBase loopless nearest (isTopLevel_of_member member)
    rw [resolve_eq]
    refine asksOnly_ofNode (fun given given_eq => ?_) fun outer outer_nearest => ?_
    · apply only
      rw [scopeOf_eq_ok_iff_nearest] at given_eq ⊢
      rwa [same_top]
    · obtain ⟨parent, parent_eq, klass⟩ := exists_klass_of_member member
      rw [nearestAbove_isBase_of_klass parent_eq klass] at outer_nearest
      obtain rfl : parent = outer := Option.some.inj (Except.ok.inj outer_nearest)
      exact (silent_resolve_of_klass klass).asksOnly root

/-! ## Activations -/

/-- What the resolution of the other node is makes a difference to the resolution of the node. -/
def Consults (tree : ScopeTree) (node other : Handle) : Prop :=
  ∃ (around : Handle → Inquiry Resolution) (instead : Inquiry Resolution),
    Resolution.ofNode tree (Function.update around other instead) node ≠
      Resolution.ofNode tree around node

/-- In the course of resolving the start, a node is resolved at a depth of nested resolutions. -/
inductive Activation (tree : ScopeTree) (start : Handle) : Nat → Handle → Prop
  | outermost : tree.Activation start 1 start
  | nested {depth : Nat} {node other : Handle} (active : tree.Activation start depth node)
      (consults : tree.Consults node other) : tree.Activation start (depth + 1) other

theorem Consults.nearest (consults : tree.Consults node other) :
    tree.nearestAbove tree.isBase node = .ok (some other) := by
  obtain ⟨around, instead, differ⟩ := consults
  by_contra distant
  apply differ
  apply Resolution.ofNode_congr
  intro base nearest
  apply Function.update_of_ne
  rintro rfl
  exact distant nearest

theorem not_consults_of_klass (klass : tree.kind node = .ok .klass) :
    ¬tree.Consults node other := by
  rintro ⟨around, instead, differ⟩
  exact differ (by rw [Resolution.ofNode_klass klass, Resolution.ofNode_klass klass])

theorem not_consults_of_topLevel (top : tree.plays .topLevelFunction node = .ok true) :
    ¬tree.Consults node other := by
  rintro ⟨around, instead, differ⟩
  have kind_eq := kind_of_isPlaced top
  exact differ (by
    rw [Resolution.ofNode_function kind_eq, Resolution.ofNode_function kind_eq,
      Resolution.ofFunction_of_topLevel top, Resolution.ofFunction_of_topLevel top])

/-- Bases are resolved below the outermost resolution, and classes below these. -/
theorem Activation.cases_depth {start : Handle} {depth : Nat}
    (active : tree.Activation start depth node) :
    depth = 1 ∨ depth = 2 ∧ tree.isBase node = .ok true ∨
      depth = 3 ∧ tree.kind node = .ok .klass := by
  induction active with
  | outermost => exact Or.inl rfl
  | @nested depth node other _ consults ih =>
      have nearest := consults.nearest
      rcases ih with rfl | ⟨rfl, base⟩ | ⟨rfl, klass⟩
      · exact Or.inr (Or.inl ⟨rfl, (Walk.mem_visited_of_findM? nearest).2⟩)
      · rcases Resolution.isBase_cases_of_passes base with klass | top | member
        · exact absurd consults (not_consults_of_klass klass)
        · exact absurd consults (not_consults_of_topLevel top)
        · obtain ⟨parent, parent_eq, klass⟩ := exists_klass_of_member member
          rw [nearestAbove_isBase_of_klass parent_eq klass] at nearest
          obtain rfl : parent = other := Option.some.inj (Except.ok.inj nearest)
          exact Or.inr (Or.inr ⟨rfl, klass⟩)
      · exact absurd consults (not_consults_of_klass klass)

/-- Resolving a node takes three nested resolutions at most, its own included: whatever would be
further inside makes no difference.  All numberings that are asked for are that of one root, so the
cache gets no more than one new scope. -/
theorem resolve_shallow {σ : Type} [BoundedCache σ Scope Numbering]
    {view : CacheView σ Scope Numbering} (lru : view.LeastRecentlyUsed)
    (loopless : Loopless tree.NamesParent) (node : Handle) :
    (∀ depth other, tree.Activation node depth other → depth ≤ 3) ∧
      (∀ around, tree.resolve node =
        Resolution.ofNode tree (Resolution.ofNode tree (Resolution.ofNode tree around)) node) ∧
      ∃ root, (tree.resolve node).AsksOnly root ∧
        ∀ (place : Nat) (cache : σ),
          ∀ scope ∈ view.keys (NumberingCache.run place tree (tree.resolve node) cache).2,
            scope ∈ view.keys cache ∨ scope = ⟨place, root⟩ := by
  refine ⟨?_, ?_, ?_⟩
  · intro depth other active
    rcases active.cases_depth with depth_eq | ⟨depth_eq, -⟩ | ⟨depth_eq, -⟩ <;> omega
  · intro around
    rw [resolve, Resolution.within]
    apply Resolution.ofNode_congr
    intro base nearest
    exact Resolution.ofNode_of_isBase (Walk.mem_visited_of_findM? nearest).2 _ around
  · obtain ⟨root, asks⟩ := exists_asksOnly_resolve loopless node
    exact ⟨root, asks, fun place cache scope member => NumberingCache.mem_keys_run lru asks member⟩

/-- A lambda in a function of a class in a function. -/
def localMember : ScopeTree where
  records :=
    #[{ kind := .file, name := some "a.kt", parent := none, children := [1] },
      { kind := .function, name := some "f", parent := some 0, children := [2] },
      { kind := .klass, name := some "L", parent := some 1, children := [3] },
      { kind := .function, name := some "m", parent := some 2, children := [4] },
      { kind := .lambda, name := none, parent := some 3, children := [] }]
  size_pos := by decide
  parent_root := rfl

/-- The depth of three is reached by way of the function of the class. -/
theorem resolve_shallow_localMember :
    Loopless localMember.NamesParent ∧ localMember.Activation 4 3 2 ∧
      (∀ depth other, localMember.Activation 4 depth other → depth ≤ 3) ∧
      ∃ root, (localMember.resolve 4).AsksOnly root := by
  have loopless : Loopless localMember.NamesParent := loopless_of_measure Fin.val (by decide)
  let named : Resolution := { name := "", rule := .memberFunction, index := none, base := none }
  have consults : ∀ node other : Handle,
      ((Resolution.ofNode localMember
          (Function.update (fun _ => .fail .endless) other (.answer named)) node).eval
        localMember).isOk = true →
      ((Resolution.ofNode localMember (fun _ => .fail .endless) node).eval localMember).isOk =
        false → localMember.Consults node other := by
    intro node other one two
    refine ⟨fun _ => .fail .endless, .answer named, fun same => ?_⟩
    rw [same, two] at one
    contradiction
  have active : localMember.Activation 4 3 2 :=
    (Activation.outermost.nested (consults 4 3 rfl rfl)).nested (consults 3 2 rfl rfl)
  obtain ⟨depths, -, root, asks, -⟩ := resolve_shallow LruCache.leastRecentlyUsed loopless 4
  exact ⟨loopless, active, depths, root, asks⟩

end ScopeTree

end BinaryName
