import BinaryName.Proofs.Cache.Gaps
import BinaryName.Proofs.Naming.Independence
import BinaryName.Proofs.Naming.Partition

/-!
# How often a scope is walked

Naming everything in a grammatical file asks for the scope of each anonymous class in turn, and for
nothing else.  The requests of a top-level declaration are all for one scope, and they come one
after the other.  So a top-level class with an anonymous class in it is walked once.  The file is
walked for the first function with one, and again wherever as many such classes as the cache has
room for lie between two such functions.
-/

namespace BinaryName

namespace ScopeTree

variable {tree : ScopeTree} {node : Handle}

/-- The node is a lambda or local function. -/
def isCounted (tree : ScopeTree) (node : Handle) : Bool :=
  decide (tree.isAnonymous node = .ok true)

/-- The node is a function directly in a file or package. -/
def sharesFile (tree : ScopeTree) (node : Handle) : Bool :=
  decide (tree.plays .topLevelFunction node = .ok true)

/-- The nodes of a declaration, itself included, in preorder. -/
def contents (tree : ScopeTree) (node : Handle) : List Handle := (tree.preorder .never node).visited

/-- The declarations with the role that have a lambda or local function in them, in source order. -/
def active (tree : ScopeTree) (role : Role) : List Handle :=
  tree.handles.filter fun node =>
    decide (tree.plays role node = .ok true) && (tree.contents node).any tree.isCounted

/-- The top-level declarations, in source order. -/
def topLevels (tree : ScopeTree) : List Handle :=
  tree.handles.filter fun node => Lineage.isTopLevel (tree.lineage node)

/-- The top-level declarations with a lambda or local function in them, in source order. -/
def activeTops (tree : ScopeTree) : List Handle :=
  tree.topLevels.filter fun top => 0 < (tree.contents top).countP tree.isCounted

/-- The root of the scope that a top-level declaration numbers its anonymous classes in. -/
def scopeRoot (tree : ScopeTree) (top : Handle) : Handle := keyOf tree.sharesFile root top

/-- The roots that are missed when the declarations ask for their scopes one after the other. -/
def misses (tree : ScopeTree) (room : Nat) : List Handle :=
  Recency.misses room [] (tree.activeTops.map tree.scopeRoot)

/-! ## What a naming asks for -/

theorem requests_indexOf (anonymous : tree.isAnonymous node = .ok true) {root : Handle}
    (scope_eq : tree.scopeOf node = .ok root) {made : Numbering}
    (numbered : tree.numbering root = .ok made) : (tree.indexOf node).requests tree = [root] := by
  have made_eq : (Inquiry.numbering root).eval tree = .ok made := by
    rw [Inquiry.eval_numbering, numbered]
  have root_asked : (Inquiry.numbering root).requests tree = [root] := by
    simp [Inquiry.numbering, Inquiry.requests, numbered]
  rw [indexOf, anonymous, Inquiry.requests_liftM_bind, if_pos rfl, scope_eq,
    Inquiry.requests_liftM_bind, Inquiry.requests_bind made_eq, root_asked]
  cases made.get? node with
  | some index => rfl
  | none => rw [(Inquiry.silent_liftM _).requests_eq, List.append_nil]

theorem requests_ofAnonymous {around : Handle → Inquiry Resolution} {base : Handle} {index : Nat}
    (nearest : tree.nearestAbove tree.isBase node = .ok (some base))
    (index_eq : (tree.indexOf node).eval tree = .ok index) (silent : (around base).Silent) :
    (Resolution.ofAnonymous tree around node).requests tree =
      (tree.indexOf node).requests tree := by
  rw [Resolution.ofAnonymous, nearest, Inquiry.requests_liftM_bind, Inquiry.requests_bind index_eq,
    bind_pure_comp, (silent.map _).requests_eq, List.append_nil]

theorem unnumbered_of_container {kind : Kind} (kind_eq : tree.kind node = .ok kind)
    (container : kind.isContainer = true) : tree.Unnumbered node := by
  refine Or.inl ?_
  have other : ∀ wanted : Kind, wanted.isContainer = false →
      tree.hasKind wanted node = .ok false := by
    intro wanted inner
    rw [hasKind_of_kind kind_eq]
    congr 1
    rw [beq_eq_false_iff_ne]
    rintro rfl
    simp [container] at inner
  rw [isAnonymous, Test.either, other .lambda rfl, plays]
  simp [bind, Except.bind, other .function rfl, pure, Except.pure]

theorem Unnumbered.requests_className (unnumbered : tree.Unnumbered node) :
    (tree.className node).requests tree = [] := by
  rw [className, Inquiry.requests_map, unnumbered.silent.requests_eq]

/-- Naming along a walk asks for what the names of the visited nodes ask for, in turn. -/
theorem requests_nameAlong {walk : Walk} {names all : Register String}
    (named : (tree.nameAlong names walk).eval tree = .ok all) :
    (tree.nameAlong names walk).requests tree =
      walk.visited.flatMap fun node => (tree.className node).requests tree := by
  induction walk generalizing names with
  | stop => rfl
  | broken fault => contradiction
  | visit node rest ih =>
      rw [Walk.visited, List.flatMap_cons]
      cases kind_eq : tree.kind node with
      | error fault =>
          rw [nameAlong, kind_eq] at named
          contradiction
      | ok kind =>
          cases container : kind.isContainer with
          | true =>
              rw [nameAlong_of_container kind_eq container] at named ⊢
              rw [(unnumbered_of_container kind_eq container).requests_className, ih () named,
                List.nil_append]
          | false =>
              have step : tree.nameAlong names (.visit node rest) = (do
                  let name ← tree.className node
                  tree.nameAlong (names.put node name) (rest ())) := by
                rw [nameAlong, kind_eq, Resolution.liftM_ok, pure_bind, container]
                rfl
              rw [step, Inquiry.eval_bind] at named
              obtain ⟨name, name_eq, named⟩ := bind_eq_ok_iff.mp named
              rw [step, Inquiry.requests_bind name_eq, ih () named]

end ScopeTree

namespace Decl

open ScopeTree

variable {decl nest : Decl} {nests : List Decl} {tree : ScopeTree} {parent : Option Nat}
  {container start top node : Nat}

/-! ## What is in a top-level declaration -/

/-- What is in a declaration are the handles from its own on. -/
theorem Fills.contents_eq (fills : decl.Fills tree) (planted : nest.Planted tree parent start)
    (within : start + nest.count ≤ tree.size) :
    tree.contents (start : Int) = handlesFrom start nest.count := by
  rw [contents, fills.preorder_eq tree.decides_never planted within, Walk.visited_stop_after]
  exact kept_eq_handlesFrom nest planted fun _ _ _ => rfl

theorem Fills.exists_place_of_mem_contents (fills : decl.Fills tree) (inside : top < tree.size)
    {node : Handle} (member : node ∈ tree.contents (top : Int)) :
    ∃ place : Nat, node = place ∧ place < tree.size := by
  obtain ⟨nest, above, planted, within⟩ := fills.exists_planted_at inside
  rw [fills.contents_eq planted within] at member
  obtain ⟨place, rfl, -, place_lt⟩ := mem_handlesFrom.mp member
  exact ⟨place, rfl, by omega⟩

/-- A node in a top-level declaration is in no other. -/
theorem Fills.nearestFrom_of_mem_contents (fills : decl.Fills tree) (nested : tree.WellNested)
    (inside : top < tree.size) (is_top : Lineage.isTopLevel (tree.lineage top) = true)
    (member : (node : Int) ∈ tree.contents (top : Int)) :
    tree.nearestFrom tree.isTopLevel (node : Int) = .ok (some (top : Int)) := by
  obtain ⟨nest, above, planted, within⟩ := fills.exists_planted_at inside
  have kept_eq : nest.kept (fun _ => false) top = handlesFrom top nest.count :=
    kept_eq_handlesFrom nest planted fun _ _ _ => rfl
  rw [fills.contents_eq planted within, ← kept_eq] at member
  exact fills.nearestFrom_of_kept_topLevel nested planted within is_top member

theorem isTopLevel_of_isMember (ordered : tree.Ordered) (sound : nest.IsMember)
    (planted : nest.Planted tree (some container) start)
    (holds : (tree.lineage container).head?.any Kind.isContainer = true) :
    Lineage.isTopLevel (tree.lineage start) = true := by
  cases nest with
  | foreign sort => exact sound.elim
  | declare head children =>
      rw [planted.lineage_eq ordered, Lineage.isTopLevel, Role.fits, Role.fits, holds]
      rcases sound.2 with ⟨klass, -⟩ | ⟨function, -⟩
      · simp [klass]
      · simp [function]

/-- The members of a file are its top-level declarations. -/
theorem Fills.filter_isTopLevel (fills : decl.Fills tree) (nested : tree.WellNested)
    (holds : (tree.lineage container).head?.any Kind.isContainer = true) (sound : AreMembers nests)
    (planted : PlantedAll tree container start nests)
    (within : start + countAll nests ≤ tree.size) :
    (handlesFrom start (countAll nests)).filter
        (fun node => Lineage.isTopLevel (tree.lineage node)) =
      starts start nests := by
  induction nests generalizing start with
  | nil => rfl
  | cons nest rest ih =>
      rw [countAll] at within
      have is_top := isTopLevel_of_isMember fills.ordered sound.1 planted.first holds
      have none_below : (handlesFrom (start + 1) (nest.count - 1)).filter
          (fun node => Lineage.isTopLevel (tree.lineage node)) = [] := by
        rw [List.filter_eq_nil_iff]
        intro node member also_top
        obtain ⟨place, rfl, le, lt⟩ := mem_handlesFrom.mp member
        have in_contents : (place : Int) ∈ tree.contents (start : Int) := by
          rw [fills.contents_eq planted.first (by omega)]
          exact mem_handlesFrom.mpr ⟨place, rfl, by omega, by omega⟩
        have nearest :=
          fills.nearestFrom_of_mem_contents nested planted.first.lt_size is_top in_contents
        rw [(judges_isTopLevel fills.ordered).nearestFrom_of_passes fills.ordered (by omega)
          also_top]
          at nearest
        have := Int.ofNat_inj.mp (Option.some.inj (Except.ok.inj nearest))
        omega
      obtain ⟨less, count_eq⟩ := Nat.exists_eq_succ_of_ne_zero (Nat.ne_of_gt nest.count_pos)
      have first_eq : (handlesFrom start nest.count).filter
          (fun node => Lineage.isTopLevel (tree.lineage node)) = [(start : Int)] := by
        rw [count_eq] at none_below ⊢
        rw [handlesFrom_succ, List.filter_cons, if_pos is_top]
        exact congrArg _ none_below
      rw [countAll, handlesFrom_add, List.filter_append, first_eq,
        ih sound.2 planted.rest (by omega), starts]
      rfl

theorem Fills.flatMap_contents (fills : decl.Fills tree)
    (planted : PlantedAll tree container start nests)
    (within : start + countAll nests ≤ tree.size) :
    (starts start nests).flatMap tree.contents = handlesFrom start (countAll nests) := by
  induction nests generalizing start with
  | nil => rfl
  | cons nest rest ih =>
      rw [countAll] at within
      have first_eq := fills.contents_eq planted.first (by omega)
      rw [starts, List.flatMap_cons, countAll, handlesFrom_add, ih planted.rest (by omega)]
      exact congrArg (· ++ _) first_eq

/-- What is around the members of a file are containers. -/
theorem Fills.isContainer_of_lt_outer (fills : decl.Fills tree) (grammatical : decl.Grammatical)
    (before : node < decl.outer) :
    (tree.lineage node).head?.any Kind.isContainer = true := by
  cases grammatical with
  | bare isFile _ sound _ =>
      rw [outer_of_bare sound] at before
      obtain rfl : node = 0 := by omega
      rw [fills.lineage_root, isFile]
      rfl
  | packaged isFile _ isPackage _ _ _ =>
      rw [outer_of_packaged isPackage] at before
      rcases (by omega : node = 0 ∨ node = 1) with rfl | rfl
      · rw [fills.lineage_root, isFile]
        rfl
      · rw [fills.planted.below.first.lineage_eq fills.ordered, isPackage]
        rfl

theorem Grammatical.outer_pos (grammatical : decl.Grammatical) : 0 < decl.outer := by
  cases grammatical with
  | bare _ _ sound _ => rw [outer_of_bare sound]; exact Nat.one_pos
  | packaged _ _ isPackage _ _ _ => rw [outer_of_packaged isPackage]; exact Nat.two_pos

/-- The nodes of a file are its containers, and then what is in the top-level declarations. -/
theorem Fills.handles_eq_contents (fills : decl.Fills tree) (grammatical : decl.Grammatical) :
    tree.handles = handlesFrom 0 decl.outer ++ tree.topLevels.flatMap tree.contents := by
  have nested := grammatical.wellNested fills
  have ordered := fills.ordered
  have size_eq := fills.size_eq
  rw [grammatical.count_eq] at size_eq
  obtain ⟨-, planted⟩ := fills.planted_members grammatical
  have positive := grammatical.outer_pos
  have holds : (tree.lineage decl.container).head?.any Kind.isContainer = true :=
    fills.isContainer_of_lt_outer grammatical (by rw [container]; omega)
  have none_outside : (handlesFrom 0 decl.outer).filter
      (fun node => Lineage.isTopLevel (tree.lineage node)) = [] := by
    rw [List.filter_eq_nil_iff]
    intro node member is_top
    obtain ⟨place, rfl, -, place_lt⟩ := mem_handlesFrom.mp member
    have around := fills.isContainer_of_lt_outer grammatical (by omega : place < decl.outer)
    rw [Lineage.isTopLevel, Bool.or_eq_true] at is_top
    rcases is_top with klass | function
    · simp [Role.head?_of_fits klass, Role.kind, Kind.isContainer] at around
    · simp [Role.head?_of_fits function, Role.kind, Kind.isContainer] at around
  have tops_eq : tree.topLevels = starts decl.outer decl.members := by
    rw [topLevels, tree.handles_eq, size_eq, handlesFrom_add, List.filter_append, none_outside,
      List.nil_append, Nat.zero_add]
    exact fills.filter_isTopLevel nested holds grammatical.areMembers planted (by omega)
  rw [tops_eq, fills.flatMap_contents planted (by omega), tree.handles_eq, size_eq, handlesFrom_add,
    Nat.zero_add]

/-! ## What naming a file asks for -/

theorem flatMap_eq_replicate {α β : Type} {elements : List α} {test : α → Bool} {next : α → List β}
    {value : β} (each : ∀ element ∈ elements, next element = if test element then [value] else []) :
    elements.flatMap next = List.replicate (elements.countP test) value := by
  induction elements with
  | nil => rfl
  | cons element rest ih =>
      have others := ih fun other member => each other (List.mem_cons_of_mem _ member)
      rw [List.flatMap_cons, each element List.mem_cons_self, others, List.countP_cons]
      cases test element with
      | true => simp [List.replicate_succ]
      | false => simp

theorem Fills.isCounted_eq (fills : decl.Fills tree) (inside : node < tree.size) :
    tree.isCounted (node : Int) = tree.numbers node := by
  rw [isCounted, judges_isAnonymous fills.ordered node inside, numbers]
  simp

theorem Fills.sharesFile_eq (fills : decl.Fills tree) (inside : node < tree.size) :
    tree.sharesFile (node : Int) = Role.topLevelFunction.fits (tree.lineage node) := by
  rw [sharesFile, judges_plays fills.ordered .topLevelFunction node inside]
  simp

/-- The anonymous classes in a top-level declaration are all in one scope. -/
theorem Fills.scopeOf_of_mem_contents (fills : decl.Fills tree) (nested : tree.WellNested)
    (top_inside : top < tree.size) (is_top : Lineage.isTopLevel (tree.lineage top) = true)
    (member : (node : Int) ∈ tree.contents (top : Int)) (counted : tree.numbers node = true) :
    tree.scopeOf (node : Int) = .ok (tree.scopeRoot top) := by
  have ordered := fills.ordered
  obtain ⟨place, same, inside⟩ := fills.exists_place_of_mem_contents top_inside member
  obtain rfl : node = place := Int.ofNat_inj.mp same
  have nearest := fills.nearestFrom_of_mem_contents nested top_inside is_top member
  rw [(judges_isTopLevel ordered).nearestFrom_of_fails ordered inside
    ((nested node inside).not_isTopLevel counted)] at nearest
  refine (scopeOf_eq_ok_iff ordered inside).mpr ⟨top, nearest, ?_⟩
  rw [scopeRoot, keyOf, fills.sharesFile_eq top_inside]
  rw [Lineage.isTopLevel, Bool.or_eq_true] at is_top
  rcases is_top with klass | function
  · rw [Role.not_fits_of_fits klass (by decide : Role.kind _ ≠ Role.kind .topLevelFunction)]
    exact Or.inl ⟨klass, rfl⟩
  · rw [function]
    exact fills.scopes_file nested top_inside function

/-- Naming an anonymous class asks for its scope once. -/
theorem Fills.requests_resolve (fills : decl.Fills tree) (nested : tree.WellNested)
    (inside : node < tree.size) (counted : tree.numbers node = true) {root : Handle}
    (scope_eq : tree.scopeOf (node : Int) = .ok root) {resolution : Resolution}
    (resolved : (tree.resolve (node : Int)).eval tree = .ok resolution) :
    (tree.resolve (node : Int)).requests tree = [root] := by
  have ordered := fills.ordered
  have line := nested node inside
  have anonymous := (judges_isAnonymous ordered).of_verdict inside counted
  have below := (judges_plays ordered .topLevelFunction).of_verdict inside
    (line.not_topLevelFunction counted)
  obtain ⟨top, -, top_eq⟩ := fills.exists_topLevel nested inside counted
  obtain ⟨parent, parent_eq, -⟩ :=
    exists_parent_of_mem_ancestors (Walk.mem_visited_of_findM? top_eq).1
  rw [resolve_of_anonymous anonymous below parent_eq] at resolved ⊢
  obtain ⟨base, index, -, nearest, index_eq, -⟩ := eval_ofAnonymous.mp resolved
  -- The base is no anonymous class itself, so naming it asks for nothing.
  obtain ⟨place, rfl, place_lt, isBase, -⟩ :=
    (judges_isBase ordered).of_nearestAbove ordered inside nearest
  have place_inside : place < tree.size := by omega
  have other : tree.isAnonymous (place : Int) = .ok false :=
    (judges_isAnonymous ordered).of_verdict place_inside
      ((nested place place_inside).not_isAnonymous isBase)
  have spared : tree.Unnumbered (place : Int) := Or.inl (by simp [other])
  obtain ⟨made, numbered⟩ := fills.exists_numbering_of_scopeOf inside scope_eq
  rw [requests_ofAnonymous nearest index_eq spared.silent,
    requests_indexOf anonymous scope_eq numbered]

/-- The containers are not numbered. -/
theorem Fills.not_numbers_of_lt_outer (fills : decl.Fills tree) (grammatical : decl.Grammatical)
    (before : node < decl.outer) : tree.numbers node = false := by
  have container := fills.isContainer_of_lt_outer grammatical before
  rw [Bool.eq_false_iff]
  intro counted
  rw [numbers, Lineage.isAnonymous, Bool.or_eq_true, beq_iff_eq] at counted
  rcases counted with lambda | function
  · simp [lambda, Kind.isContainer] at container
  · simp [Role.head?_of_fits function, Role.kind, Kind.isContainer] at container

theorem Fills.requests_className_of_not_counted (fills : decl.Fills tree)
    (inside : node < tree.size)
    (other : tree.numbers node = false) : (tree.className (node : Int)).requests tree = [] := by
  have test := (judges_isAnonymous fills.ordered).of_verdict inside other
  exact Unnumbered.requests_className (Or.inl (by simp [test]))

theorem Fills.requests_className (fills : decl.Fills tree) (grammatical : decl.Grammatical)
    (inside : node < tree.size) {root : Handle}
    (scope_eq : tree.numbers node = true → tree.scopeOf (node : Int) = .ok root) :
    (tree.className (node : Int)).requests tree =
      if tree.isCounted (node : Int) then [root] else [] := by
  rw [fills.isCounted_eq inside]
  cases counted : tree.numbers node with
  | false => exact fills.requests_className_of_not_counted inside counted
  | true =>
      have outside : ¬node < decl.outer := by
        intro before
        simp [fills.not_numbers_of_lt_outer grammatical before] at counted
      have size_eq := fills.size_eq
      have passed : (node : Int) ∈ handlesFrom decl.outer (decl.count - decl.outer) :=
        mem_handlesFrom.mpr ⟨node, rfl, by omega, by omega⟩
      obtain ⟨designation, -, designates⟩ :=
        exists_related_of_mem (fills.designates_file grammatical) passed
      obtain ⟨resolution, resolved, -⟩ := designates.resolves
      rw [className, Inquiry.requests_map,
        fills.requests_resolve (grammatical.wellNested fills) inside counted (scope_eq counted)
          resolved]
      rfl

theorem mem_topLevels {top : Handle} :
    top ∈ tree.topLevels ↔ ∃ place : Nat, top = place ∧ place < tree.size ∧
      Lineage.isTopLevel (tree.lineage place) = true := by
  rw [topLevels, List.mem_filter, mem_handles]
  constructor
  · rintro ⟨⟨place, rfl, inside⟩, is_top⟩
    exact ⟨place, rfl, inside, is_top⟩
  · rintro ⟨place, rfl, inside, is_top⟩
    exact ⟨⟨place, rfl, inside⟩, is_top⟩

/-- Naming everything in a file asks for the scope of each top-level declaration as often as there
are anonymous classes in it. -/
theorem Fills.requests_classNames (fills : decl.Fills tree) (grammatical : decl.Grammatical) :
    tree.classNames.requests tree = tree.topLevels.flatMap fun top =>
      List.replicate ((tree.contents top).countP tree.isCounted) (tree.scopeRoot top) := by
  have nested := grammatical.wellNested fills
  have size_eq := fills.size_eq
  rw [grammatical.count_eq] at size_eq
  have handles_eq := fills.handles_eq_contents grammatical
  rw [tree.handles_eq] at handles_eq
  have outside : (handlesFrom 0 decl.outer).flatMap
      (fun node => (tree.className node).requests tree) = [] := by
    rw [List.flatMap_eq_nil_iff]
    intro node member
    obtain ⟨place, rfl, -, place_lt⟩ := mem_handlesFrom.mp member
    exact fills.requests_className_of_not_counted (by omega)
      (fills.not_numbers_of_lt_outer grammatical (by omega))
  rw [classNames, requests_nameAlong (grammatical.eval_classNames fills), fills.iteration_eq,
    Walk.visited_stop_after, handles_eq, List.flatMap_append, outside, List.nil_append,
    List.flatMap_assoc]
  apply List.flatMap_congr
  intro top top_member
  obtain ⟨top, rfl, top_inside, is_top⟩ := mem_topLevels.mp top_member
  apply flatMap_eq_replicate
  intro node member
  obtain ⟨node, rfl, inside⟩ := fills.exists_place_of_mem_contents top_inside member
  exact fills.requests_className grammatical inside
    (fills.scopeOf_of_mem_contents nested top_inside is_top member)

/-! ## What is walked -/

/-- What is walked are the misses of the declarations, each of which asks for its scope once. -/
theorem Fills.count_walked {σ : Type} [BoundedCache σ Scope Numbering]
    {view : CacheView σ Scope Numbering} (lru : view.LeastRecentlyUsed) (fills : decl.Fills tree)
    (grammatical : decl.Grammatical) {room : Nat} (positive : 1 ≤ room) (place : Nat)
    (node : Handle) :
    (NumberingCache.walked place tree tree.classNames (BoundedCache.empty room : σ)).count
      ⟨place, node⟩ = (tree.misses room).count node := by
  have sound :
      NumberingCache.Sound view (fun _ => some tree) (BoundedCache.empty (room : Int) : σ) :=
    NumberingCache.sound_empty lru (by omega)
  have injective : Function.Injective fun root : Handle => (⟨place, root⟩ : Scope) := by
    intro root other same
    exact congrArg Scope.root same
  have walked_eq : NumberingCache.walked place tree tree.classNames (BoundedCache.empty room : σ) =
      Recency.misses room ([].map fun root : Handle => (⟨place, root⟩ : Scope))
        ((tree.classNames.requests tree).map fun root => ⟨place, root⟩) :=
    NumberingCache.walked_eq_misses lru (CacheView.follows_empty lru room) sound rfl tree.classNames
  rw [walked_eq, Recency.misses_map injective, List.count_map_of_injective _ _ injective,
    fills.requests_classNames grammatical, Recency.misses_flatMap_replicate positive]
  rfl

theorem pairwise_activeTops (tree : ScopeTree) : tree.activeTops.Pairwise (· < ·) := by
  have all := pairwise_handlesFrom 0 tree.size
  rw [← tree.handles_eq] at all
  exact all.sublist (List.filter_sublist.trans List.filter_sublist)

theorem mem_activeTops {top : Handle} :
    top ∈ tree.activeTops ↔
      top ∈ tree.topLevels ∧ ∃ node ∈ tree.contents top, tree.isCounted node = true := by
  rw [activeTops, List.mem_filter, decide_eq_true_iff, List.countP_pos_iff]

/-- The file is in no declaration. -/
theorem Fills.root_notMem_activeTops (fills : decl.Fills tree) (nested : tree.WellNested) :
    ScopeTree.root ∉ tree.activeTops := by
  intro member
  obtain ⟨top, same, -, is_top⟩ := mem_topLevels.mp (mem_activeTops.mp member).1
  obtain rfl : top = 0 := Int.ofNat_inj.mp same.symm
  rw [fills.lineage_first nested] at is_top
  contradiction

/-- The declarations of a role among the top-level ones are those that pass a test for it. -/
theorem Fills.filter_activeTops_of (fills : decl.Fills tree) {role : Role} {keep : Handle → Bool}
    (tells : ∀ node : Nat, node < tree.size →
      (keep node && Lineage.isTopLevel (tree.lineage node)) = role.fits (tree.lineage node)) :
    tree.activeTops.filter keep = tree.active role := by
  rw [activeTops, topLevels, active, List.filter_filter, List.filter_filter]
  apply List.filter_congr
  intro node member
  obtain ⟨node, rfl, inside⟩ := mem_handles.mp member
  have busy : decide (0 < (tree.contents (node : Int)).countP tree.isCounted) =
      (tree.contents node).any tree.isCounted := by
    rw [Bool.eq_iff_iff, decide_eq_true_iff, List.countP_pos_iff, List.any_eq_true]
  have plays_eq : decide (tree.plays role (node : Int) = .ok true) =
      role.fits (tree.lineage node) := by
    rw [judges_plays fills.ordered role node inside]
    simp
  rw [busy, plays_eq, ← tells node inside, Bool.and_right_comm]

theorem Fills.filter_activeTops (fills : decl.Fills tree) :
    tree.activeTops.filter tree.sharesFile = tree.active .topLevelFunction ∧
      tree.activeTops.filter (!tree.sharesFile ·) = tree.active .topLevelClass := by
  constructor
  · apply fills.filter_activeTops_of
    intro node inside
    rw [fills.sharesFile_eq inside, Lineage.isTopLevel]
    cases Role.topLevelFunction.fits (tree.lineage node) <;> simp
  · apply fills.filter_activeTops_of
    intro node inside
    rw [fills.sharesFile_eq inside, Lineage.isTopLevel]
    cases klass : Role.topLevelClass.fits (tree.lineage node) with
    | false => cases Role.topLevelFunction.fits (tree.lineage node) <;> simp
    | true =>
        have differ : Role.kind .topLevelClass ≠ Role.kind .topLevelFunction := by decide
        simp [Role.not_fits_of_fits klass differ]

/-- The scopes of the anonymous classes are those of the declarations that they are in. -/
theorem Fills.forall_scopeOf_iff (fills : decl.Fills tree) (grammatical : decl.Grammatical)
    (holds : Handle → Prop) :
    (∀ node ∈ tree.handles, tree.isAnonymous node = .ok true →
        ∃ root, tree.scopeOf node = .ok root ∧ holds root) ↔
      ∀ top ∈ tree.activeTops, holds (tree.scopeRoot top) := by
  have nested := grammatical.wellNested fills
  have ordered := fills.ordered
  constructor
  · intro each top member
    obtain ⟨top_member, node, node_member, counted⟩ := mem_activeTops.mp member
    obtain ⟨top, rfl, top_inside, is_top⟩ := mem_topLevels.mp top_member
    obtain ⟨node, rfl, inside⟩ := fills.exists_place_of_mem_contents top_inside node_member
    obtain ⟨root, scope_eq, held⟩ :=
      each node (mem_handles.mpr ⟨node, rfl, inside⟩) (of_decide_eq_true counted)
    rw [fills.isCounted_eq inside] at counted
    rw [fills.scopeOf_of_mem_contents nested top_inside is_top node_member counted] at scope_eq
    rwa [Except.ok.inj scope_eq]
  · intro each node member anonymous
    obtain ⟨node, rfl, inside, counted⟩ := exists_place_of_isAnonymous ordered member anonymous
    rw [fills.handles_eq_contents grammatical] at member
    rcases List.mem_append.mp member with outside | within
    · obtain ⟨place, same, -, place_lt⟩ := mem_handlesFrom.mp outside
      obtain rfl : node = place := Int.ofNat_inj.mp same
      simp [fills.not_numbers_of_lt_outer grammatical (by omega : node < decl.outer)] at counted
    · obtain ⟨top, top_member, node_member⟩ := List.mem_flatMap.mp within
      have top_active : top ∈ tree.activeTops :=
        mem_activeTops.mpr ⟨top_member, node, node_member, decide_eq_true anonymous⟩
      obtain ⟨top, rfl, top_inside, is_top⟩ := mem_topLevels.mp top_member
      exact ⟨_, fills.scopeOf_of_mem_contents nested top_inside is_top node_member counted,
        each top top_active⟩

theorem Fills.count_misses_klass (fills : decl.Fills tree) (grammatical : decl.Grammatical)
    (room : Nat) {klass : Handle} (member : klass ∈ tree.active .topLevelClass) :
    (tree.misses room).count klass = 1 := by
  have distinct : tree.activeTops.Nodup := (pairwise_activeTops tree).imp fun lt => Int.ne_of_lt lt
  have apart := fills.root_notMem_activeTops (grammatical.wellNested fills)
  rw [← fills.filter_activeTops.2] at member
  obtain ⟨top_member, keeps⟩ := List.mem_filter.mp member
  exact Recency.count_misses_of_new List.not_mem_nil
    (count_map_keyOf distinct apart top_member (by simpa using keeps))

theorem Fills.count_misses_file (fills : decl.Fills tree) (grammatical : decl.Grammatical)
    (room : Nat) : (tree.misses room).count ScopeTree.root =
      if tree.active .topLevelFunction = [] then 0
      else wideGaps room (tree.active .topLevelClass) (tree.active .topLevelFunction) + 1 := by
  have apart := fills.root_notMem_activeTops (grammatical.wellNested fills)
  obtain ⟨functions_eq, klasses_eq⟩ := fills.filter_activeTops
  have shared_count := @Recency.count_misses_shared room tree.sharesFile ScopeTree.root [] []
    tree.activeTops (pairwise_activeTops tree) apart List.not_mem_nil (by simp) (by simp)
  rw [functions_eq, List.nil_append, klasses_eq] at shared_count
  exact shared_count

/-- The scope of a declaration has the file as its root, or the declaration itself. -/
theorem Fills.scopeRoot_cases (fills : decl.Fills tree) {top : Handle}
    (member : top ∈ tree.activeTops) :
    tree.scopeRoot top = ScopeTree.root ∧ top ∈ tree.active .topLevelFunction ∨
      tree.scopeRoot top = top ∧ top ∈ tree.active .topLevelClass := by
  obtain ⟨functions_eq, klasses_eq⟩ := fills.filter_activeTops
  rw [← functions_eq, ← klasses_eq, List.mem_filter, List.mem_filter, scopeRoot, keyOf]
  cases shares : tree.sharesFile top with
  | true => exact Or.inl ⟨rfl, member, rfl⟩
  | false => exact Or.inr ⟨rfl, member, rfl⟩

theorem Fills.count_misses_other (fills : decl.Fills tree) (room : Nat) {node : Handle}
    (not_file : node ≠ ScopeTree.root) (not_klass : node ∉ tree.active .topLevelClass) :
    (tree.misses room).count node = 0 := by
  rw [List.count_eq_zero]
  intro member
  obtain ⟨top, top_member, root_eq⟩ := List.mem_map.mp ((Recency.misses_sublist _ _ _).mem member)
  rcases fills.scopeRoot_cases top_member with ⟨file, -⟩ | ⟨own, klass⟩
  · exact not_file (root_eq.symm.trans file)
  · rw [own] at root_eq
    exact not_klass (root_eq ▸ klass)

/-- Every scope is missed once exactly if there is no wide gap. -/
theorem Fills.missed_once_iff (fills : decl.Fills tree) (grammatical : decl.Grammatical)
    (room : Nat) :
    (∀ top ∈ tree.activeTops, (tree.misses room).count (tree.scopeRoot top) = 1) ↔
      wideGaps room (tree.active .topLevelClass) (tree.active .topLevelFunction) = 0 := by
  have file_count := fills.count_misses_file grammatical room
  constructor
  · intro each
    cases functions_eq : tree.active .topLevelFunction with
    | nil => rfl
    | cons function rest =>
        have function_member : function ∈ tree.active .topLevelFunction := by
          rw [functions_eq]
          exact List.mem_cons_self
        rw [← fills.filter_activeTops.1] at function_member
        obtain ⟨member, shares⟩ := List.mem_filter.mp function_member
        have root_eq : tree.scopeRoot function = ScopeTree.root := by
          rw [scopeRoot, keyOf, if_pos shares]
        have once := each function member
        rw [root_eq, file_count, functions_eq, if_neg (List.cons_ne_nil _ _)] at once
        omega
  · intro narrow top member
    rcases fills.scopeRoot_cases member with ⟨file, function⟩ | ⟨own, klass⟩
    · rw [file, file_count, narrow, if_neg (List.ne_nil_of_mem function)]
    · rw [own]
      exact fills.count_misses_klass grammatical room klass

/-- In the course of naming a grammatical file with a fresh cache that has room and gives up what
has been used least recently, each top-level class with an anonymous class in it is walked once, and
no other class is walked.  The file is walked once if a top-level function has an anonymous class in
it, and once more for every two successive ones of these functions with as many of these classes
between them as there is room for.  So each scope is walked once exactly if there are no such
functions. -/
theorem Grammatical.scopes_walked {σ : Type} [BoundedCache σ Scope Numbering]
    {view : CacheView σ Scope Numbering} (lru : view.LeastRecentlyUsed)
    (grammatical : decl.Grammatical) {room : Nat} (positive : 1 ≤ room) (place : Nat) :
    ∃ built, decl.layout = .ok built ∧
      let tree := built.tree
      let walks := NumberingCache.walked place tree tree.classNames (BoundedCache.empty room : σ)
      let klasses := tree.active .topLevelClass
      let functions := tree.active .topLevelFunction
      (∀ klass ∈ klasses, walks.count ⟨place, klass⟩ = 1) ∧
      (∀ node, node ≠ ScopeTree.root → node ∉ klasses → walks.count ⟨place, node⟩ = 0) ∧
      walks.count ⟨place, ScopeTree.root⟩ =
        (if functions = [] then 0 else wideGaps room klasses functions + 1) ∧
      ((∀ node ∈ tree.handles, tree.isAnonymous node = .ok true →
          ∃ root, tree.scopeOf node = .ok root ∧ walks.count ⟨place, root⟩ = 1) ↔
        wideGaps room klasses functions = 0) := by
  obtain ⟨built, laid⟩ := grammatical.exists_layout
  have fills := fills_of_layout laid
  refine ⟨built, laid, ?_⟩
  intro tree walks klasses functions
  have count_eq : ∀ root, walks.count ⟨place, root⟩ = (tree.misses room).count root :=
    fun root => fills.count_walked lru grammatical positive place root
  simp only [count_eq]
  refine ⟨fun klass member => fills.count_misses_klass grammatical room member,
    fun node not_file not_klass => fills.count_misses_other room not_file not_klass,
    fills.count_misses_file grammatical room, ?_⟩
  rw [fills.forall_scopeOf_iff grammatical fun root => (tree.misses room).count root = 1]
  exact fills.missed_once_iff grammatical room

/-- With room for two numberings, the two classes drive the scope of the file out of the cache
before the second function needs it. -/
theorem Grammatical.scopes_walked_classBetween :
    classBetween.Grammatical ∧ 1 ≤ 2 ∧ ∃ built, classBetween.layout = .ok built ∧
      let walks := NumberingCache.walked 0 built.tree built.tree.classNames
        (.empty (2 : Nat) : NumberingCache)
      walks.count ⟨0, 3⟩ = 1 ∧ walks.count ⟨0, 6⟩ = 1 ∧ walks.count ⟨0, 4⟩ = 0 ∧
        walks.count ⟨0, 0⟩ = 2 := by
  have grammatical : classBetween.Grammatical := by
    refine .bare rfl (by decide) ?_ (by decide)
    simp [AreMembers, IsMember, AreCode, IsCode, sharedClass, sharedFunction]
  obtain ⟨built, laid, klass_count, other_count, file_count, -⟩ :=
    grammatical.scopes_walked LruCache.leastRecentlyUsed (by decide : 1 ≤ 2) 0
  let tree : ScopeTree :=
    { records := (classBetween.records none 0).toArray
      size_pos := by decide
      parent_root := rfl }
  have tree_laid : classBetween.layout = .ok (.ofTree tree) := (layout_eq _).trans rfl
  have built_eq : built = LabelledTree.ofTree tree := Except.ok.inj (laid.symm.trans tree_laid)
  have klasses_eq : built.tree.active .topLevelClass = [3, 6] := by
    rw [built_eq]
    decide +kernel
  have functions_eq : built.tree.active .topLevelFunction = [1, 9] := by
    rw [built_eq]
    decide +kernel
  rw [functions_eq, klasses_eq] at file_count
  rw [klasses_eq] at klass_count other_count
  exact ⟨grammatical, by decide, _, laid, klass_count 3 (by decide), klass_count 6 (by decide),
    other_count 4 (by decide) (by decide), file_count⟩

end Decl

end BinaryName
