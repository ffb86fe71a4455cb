import BinaryName.Proofs.Cache.Recency
import BinaryName.Proofs.Naming.Failure

/-!
# Caches without room

A cache whose capacity is below one stays empty, and whoever needs a numbering from it is turned
away.  A naming needs one exactly if the node is a lambda or local function with a base and a scope,
be the index or the name of the base to be had or not.  Any other naming asks for no numbering, so
it comes out as with room.
-/

namespace BinaryName

variable {σ : Type} {view : CacheView σ Scope Numbering}

namespace NumberingCache

/-- Nothing is in the cache, and there is no place for anything. -/
structure Roomless (view : CacheView σ Scope Numbering) (cache : σ) : Prop where
  capacity_le : view.capacity cache ≤ 0
  recency_eq : view.recency cache = []

variable {cache after : σ}

theorem Roomless.of_same (roomless : Roomless view cache) (same : view.Same cache after) :
    Roomless view after :=
  ⟨same.capacity_eq ▸ roomless.capacity_le, same.recency_eq ▸ roomless.recency_eq⟩

variable [BoundedCache σ Scope Numbering] {α : Type}

theorem roomless_empty (lru : view.LeastRecentlyUsed) {capacity : Int} (roomless : capacity ≤ 0) :
    Roomless view (BoundedCache.empty capacity : σ) :=
  ⟨by rwa [lru.capacity_empty], lru.recency_empty capacity⟩

/-- A numbering that is made is lost. -/
theorem fetch_roomless (lru : view.LeastRecentlyUsed) (roomless : Roomless view cache) (place : Nat)
    (tree : ScopeTree) (root : Handle) :
    (fetch cache place tree root).1 = (tree.numbering root >>= fun _ => .error .noRoom) ∧
      Roomless view (fetch cache place tree root).2 := by
  have outcome := fetched lru cache place tree root
  generalize fetch cache place tree root = given at outcome ⊢
  cases outcome with
  | hit found _ _ =>
      rw [roomless.recency_eq] at found
      exact absurd found List.not_mem_nil
  | stored _ _ roomy _ _ =>
      have full := roomless.capacity_le
      omega
  | failed numbered same =>
      rw [numbered]
      exact ⟨rfl, roomless.of_same same⟩
  | refused numbered _ same =>
      rw [numbered]
      exact ⟨rfl, roomless.of_same same⟩

theorem run_roomless (lru : view.LeastRecentlyUsed) (roomless : Roomless view cache) (place : Nat)
    (tree : ScopeTree) (inquiry : Inquiry α) : Roomless view (run place tree inquiry cache).2 := by
  induction inquiry generalizing cache with
  | answer value => exact roomless
  | fail fault => exact roomless
  | ask root next ih =>
      have kept := (fetch_roomless lru roomless place tree root).2
      rw [run]
      generalize fetch cache place tree root = given at kept ⊢
      obtain ⟨outcome, after⟩ := given
      cases outcome with
      | ok numbering => exact ih numbering kept
      | error fault => exact kept

/-- An inquiry is turned away at the first numbering that it asks for and that can be made. -/
theorem run_roomless_ask (lru : view.LeastRecentlyUsed) (roomless : Roomless view cache)
    (place : Nat) {tree : ScopeTree} {root : Handle} {made : Numbering}
    (numbered : tree.numbering root = .ok made) (next : Numbering → Inquiry α) :
    (run place tree (.ask root next) cache).1 = .error .noRoom := by
  have turned_away := (fetch_roomless lru roomless place tree root).1
  rw [numbered] at turned_away
  rw [run]
  generalize fetch cache place tree root = given at turned_away ⊢
  obtain ⟨outcome, after⟩ := given
  obtain rfl : outcome = .error .noRoom := turned_away
  rfl

end NumberingCache

namespace Session

open NumberingCache

variable [BoundedCache σ Scope Numbering]

/-- A request leaves a cache without room empty, and that is what it reports. -/
theorem serve_roomless (lru : view.LeastRecentlyUsed) (session : Session σ) {cache : σ}
    (roomless : Roomless view cache) (request : Request) :
    Roomless view (session.serve cache request).2 ∧
      (report (session.serve cache request)).size = 0 ∧
      (report (session.serve cache request)).scopes = [] := by
  have kept : Roomless view (session.serve cache request).2 := by
    rcases session.serve_cases request with
      ⟨-, refused, served⟩ | ⟨place, tree, inquiry, -, -, served⟩
    · rw [served]
      exact roomless
    · rw [served]
      exact run_roomless lru roomless place tree inquiry
  have no_keys : view.keys (session.serve cache request).2 = [] := by
    rw [CacheView.keys, kept.recency_eq, List.map_nil]
  refine ⟨kept, ?_, ?_⟩
  · rw [report, lru.size_eq_length_keys, no_keys, List.length_nil]
  · have keys_perm := lru.keys_perm (session.serve cache request).2
    rw [no_keys, List.perm_nil] at keys_perm
    rw [report, scopes, keys_perm, List.mergeSort_nil]

end Session

namespace ScopeTree

open Inquiry

variable {tree : ScopeTree} {node : Handle}

/-- A name for the node takes a numbering: the node is a lambda, or a local function that is in no
file or package itself, and it has a base and a scope. -/
structure NeedsNumbering (tree : ScopeTree) (node : Handle) : Prop where
  anonymous : tree.kind node = .ok .lambda ∨
    tree.plays .localFunction node = .ok true ∧ tree.plays .topLevelFunction node = .ok false
  base : ∃ base, tree.nearestAbove tree.isBase node = .ok (some base)
  scope : ∃ root, tree.scopeOf node = .ok root

/-! ## A naming that is turned away -/

theorem exists_ask_indexOf (anonymous : tree.isAnonymous node = .ok true) {root : Handle}
    (scope_eq : tree.scopeOf node = .ok root) : ∃ next, tree.indexOf node = .ask root next := by
  rw [indexOf, anonymous, scope_eq]
  exact ⟨_, rfl⟩

theorem exists_ask_ofAnonymous {around : Handle → Inquiry Resolution}
    (anonymous : tree.isAnonymous node = .ok true) {base root : Handle}
    (nearest : tree.nearestAbove tree.isBase node = .ok (some base))
    (scope_eq : tree.scopeOf node = .ok root) :
    ∃ next, Resolution.ofAnonymous tree around node = .ask root next := by
  obtain ⟨next, index_eq⟩ := exists_ask_indexOf anonymous scope_eq
  rw [Resolution.ofAnonymous, nearest, Resolution.liftM_ok, pure_bind]
  simp only [index_eq]
  exact ⟨_, rfl⟩

theorem NeedsNumbering.isAnonymous (needs : tree.NeedsNumbering node) :
    tree.isAnonymous node = .ok true ∧ tree.plays .topLevelFunction node = .ok false := by
  rcases needs.anonymous with lambda | ⟨inner, not_top⟩
  · refine ⟨isAnonymous_of_lambda lambda, ?_⟩
    rw [plays, isPlaced, hasKind_of_kind lambda]
    rfl
  · exact ⟨isAnonymous_of_localFunction inner, not_top⟩

theorem NeedsNumbering.exists_ask (needs : tree.NeedsNumbering node) :
    ∃ root next, tree.scopeOf node = .ok root ∧ tree.resolve node = .ask root next := by
  obtain ⟨base, nearest⟩ := needs.base
  obtain ⟨root, scope_eq⟩ := needs.scope
  obtain ⟨anonymous, not_top⟩ := needs.isAnonymous
  obtain ⟨parent, parent_eq, -⟩ :=
    exists_parent_of_mem_ancestors (Walk.mem_visited_of_findM? nearest).1
  obtain ⟨next, asked⟩ :=
    @exists_ask_ofAnonymous tree node tree.resolve anonymous base root nearest scope_eq
  exact ⟨root, next, scope_eq, by rw [resolve_of_anonymous anonymous not_top parent_eq, asked]⟩

/-! ## Any other naming -/

theorem exists_fail_indexOf (homeless : ¬∃ root, tree.scopeOf node = .ok root) :
    ∃ fault, tree.indexOf node = .fail fault := by
  rw [indexOf]
  cases tree.isAnonymous node with
  | error fault => exact ⟨fault, rfl⟩
  | ok anonymous =>
      cases anonymous with
      | true =>
          cases scope_eq : tree.scopeOf node with
          | error fault => exact ⟨fault, rfl⟩
          | ok root => exact absurd ⟨root, scope_eq⟩ homeless
      | false =>
          cases tree.caption node with
          | error fault => exact ⟨fault, rfl⟩
          | ok caption => exact ⟨_, rfl⟩

theorem silent_ofAnonymous {around : Handle → Inquiry Resolution}
    (lacks : ¬((∃ base, tree.nearestAbove tree.isBase node = .ok (some base)) ∧
      ∃ root, tree.scopeOf node = .ok root)) :
    (Resolution.ofAnonymous tree around node).Silent := by
  rw [Resolution.ofAnonymous]
  apply silent_bind
  intro found nearest
  cases found with
  | none => exact silent_liftM _
  | some base =>
      obtain ⟨fault, failed⟩ := exists_fail_indexOf fun housed => lacks ⟨⟨base, nearest⟩, housed⟩
      simp only [failed]
      exact silent_fail fault

/-- A name that takes no numbering is found or refused without asking for one. -/
theorem silent_of_not_needsNumbering (spared : ¬tree.NeedsNumbering node) :
    (tree.resolve node).Silent := by
  by_cases unnumbered : tree.Unnumbered node
  · exact unnumbered.silent
  have anonymous : tree.isAnonymous node = .ok true := by
    by_contra other
    exact unnumbered (Or.inl other)
  rw [resolve_eq]
  rcases Test.passes_of_either anonymous with lambda | inner
  · have kind_eq := kind_of_hasKind lambda
    rw [Resolution.ofNode_lambda kind_eq]
    exact silent_ofAnonymous fun given => spared ⟨Or.inl kind_eq, given.1, given.2⟩
  · rw [Resolution.ofNode_function (kind_of_localFunction inner)]
    have rule := Resolution.functionRule_ofFunction tree tree.resolve node
    generalize Resolution.ofFunction tree tree.resolve node = inquiry at rule ⊢
    cases rule with
    | silent silent => exact silent
    | anonymous not_top _ =>
        exact silent_ofAnonymous fun given => spared ⟨Or.inr ⟨inner, not_top⟩, given.1, given.2⟩
    | member parent_eq klass outside => simp [inner] at outside

end ScopeTree

namespace Decl.Fills

open ScopeTree

variable {whole : Decl} {tree : ScopeTree} {node : Nat}

/-- With room, no naming is turned away. -/
theorem eval_resolve_ne_noRoom (fills : whole.Fills tree) (inside : node < tree.size) :
    (tree.resolve (node : Int)).eval tree ≠ .error .noRoom := by
  have kind_eq := kind_natCast tree inside
  cases ruled : tree.records[node].kind.hasRule with
  | false =>
      by_cases genuine : tree.records[node].kind.spelled = tree.records[node].kind
      · obtain ⟨reason, failed⟩ := eval_resolve_of_unruled kind_eq ruled genuine
        simp [failed]
      · rw [eval_resolve_of_spelled fills.ordered inside kind_eq genuine]
        split <;> simp
  | true =>
      intro failed
      cases fills.settles_resolve inside kind_eq ruled _ failed

end Decl.Fills

namespace Session

open NumberingCache

variable [BoundedCache σ Scope Numbering]

end Session

end BinaryName
