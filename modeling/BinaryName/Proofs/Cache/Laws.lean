import BinaryName.Cache.Numberings

/-!
# Laws of least-recently-used caches

A cache shows neither its capacity nor in which order its entries have been used.  The laws say what
looking up and storing do to these two, and nothing is assumed of a cache beyond them.  Caches that
are lists obey the laws.  A request for a numbering is a hit, or the numbering is made and stored,
or it cannot be made, or it finds no room: whatever else is said about cached numberings follows
from these four cases.
-/

namespace BinaryName

/-- A way to look at the caches of a type. -/
structure CacheView (σ κ ν : Type) where
  /-- The number of places. -/
  capacity : σ → Int
  /-- The entries, most recently used first. -/
  recency : σ → List (κ × ν)

namespace CacheView

variable {σ κ ν : Type}

/-- The keys, most recently used first. -/
def keys (view : CacheView σ κ ν) (cache : σ) : List κ := (view.recency cache).map Prod.fst

/-- Two caches of one capacity with the same entries in the same order. -/
structure Same (view : CacheView σ κ ν) (cache other : σ) : Prop where
  capacity_eq : view.capacity other = view.capacity cache
  recency_eq : view.recency other = view.recency cache

theorem Same.refl (view : CacheView σ κ ν) (cache : σ) : view.Same cache cache := ⟨rfl, rfl⟩

theorem Same.keys_eq {view : CacheView σ κ ν} {cache other : σ} (same : view.Same cache other) :
    view.keys other = view.keys cache :=
  congrArg (List.map Prod.fst) same.recency_eq

variable [DecidableEq κ] [BoundedCache σ κ ν]

/-- The laws of a cache whose entries take one place each and which gives up those that have been
used least recently. -/
structure LeastRecentlyUsed (view : CacheView σ κ ν) : Prop where
  /-- A cache is made with its capacity. -/
  capacity_empty : ∀ room, view.capacity (BoundedCache.empty room) = room
  /-- A cache is made without entries. -/
  recency_empty : ∀ room, view.recency (BoundedCache.empty room) = []
  /-- Looking up gives the value of the key, if there is an entry for it. -/
  get_value : ∀ cache key, (BoundedCache.get cache key).1 =
    ((view.recency cache).find? (·.1 = key)).map Prod.snd
  /-- Looking up a key without an entry changes nothing. -/
  get_misses : ∀ cache key, (BoundedCache.get cache key).1 = none →
    view.Same cache (BoundedCache.get cache key).2
  /-- A key that is found is the one that has been used last. -/
  get_refreshes : ∀ cache key value, (BoundedCache.get cache key).1 = some value →
    view.capacity (BoundedCache.get cache key).2 = view.capacity cache ∧
      view.recency (BoundedCache.get cache key).2 =
        (key, value) :: (view.recency cache).filter (·.1 ≠ key)
  /-- A new key takes a place, for which the entries that have been used least recently are given up
  where there is no other. -/
  store_evicts : ∀ cache key value, 1 ≤ view.capacity cache → key ∉ view.keys cache →
    ∃ after, BoundedCache.store? cache key value = some after ∧
      view.capacity after = view.capacity cache ∧
      view.recency after =
        (key, value) :: (view.recency cache).take (view.capacity cache - 1).toNat
  /-- Without a place nothing is stored. -/
  store_refuses : ∀ cache key value, view.capacity cache < 1 →
    BoundedCache.store? cache key value = none
  /-- Every entry counts once. -/
  size_eq : ∀ cache, BoundedCache.size cache = (view.recency cache).length
  /-- The keys that are listed are those of the entries. -/
  keys_perm : ∀ cache, (BoundedCache.keys cache).Perm (view.keys cache)

namespace LeastRecentlyUsed

variable {view : CacheView σ κ ν} {cache : σ} {key : κ} {value : ν}

theorem keys_empty (lru : view.LeastRecentlyUsed) (room : Int) :
    view.keys (BoundedCache.empty room) = [] := by
  rw [keys, lru.recency_empty, List.map_nil]

theorem size_eq_length_keys (lru : view.LeastRecentlyUsed) (cache : σ) :
    BoundedCache.size cache = (view.keys cache).length := by
  rw [lru.size_eq, keys, List.length_map]

theorem mem_recency (lru : view.LeastRecentlyUsed)
    (found : (BoundedCache.get cache key).1 = some value) : (key, value) ∈ view.recency cache := by
  rw [lru.get_value] at found
  obtain ⟨entry, entry_found, rfl⟩ := Option.map_eq_some_iff.mp found
  have same : entry.1 = key := by simpa using List.find?_some entry_found
  subst same
  exact List.mem_of_find?_eq_some entry_found

/-- A key is found exactly if there is an entry for it. -/
theorem isSome_get_iff (lru : view.LeastRecentlyUsed) :
    (BoundedCache.get cache key).1.isSome = true ↔ key ∈ view.keys cache := by
  rw [lru.get_value, Option.isSome_map, List.find?_isSome, keys, List.mem_map]
  simp

theorem notMem_keys_of_get (lru : view.LeastRecentlyUsed)
    (missed : (BoundedCache.get cache key).1 = none) : key ∉ view.keys cache := by
  rw [← lru.isSome_get_iff, missed]
  exact Bool.false_ne_true

end LeastRecentlyUsed

end CacheView

/-! ## Lists -/

namespace LruCache

variable {κ ν : Type}

/-- All of a cache that is a list is open to view. -/
def view : CacheView (LruCache κ ν) κ ν := { capacity := capacity, recency := entries }

theorem filter_entries_of_notMem [DecidableEq κ] {cache : LruCache κ ν} {key : κ}
    (new : key ∉ view.keys cache) : cache.entries.filter (·.1 ≠ key) = cache.entries := by
  rw [List.filter_eq_self]
  intro entry member
  have differs : entry.1 ≠ key := by
    rintro rfl
    exact new (List.mem_map_of_mem member)
  simpa using differs

theorem get_of_some [DecidableEq κ] {cache : LruCache κ ν} {key : κ} {value : ν}
    (found : cache.get? key = some value) :
    cache.get key = (some value, cache.touch key value) := by
  rw [get, found]

theorem get_of_none [DecidableEq κ] {cache : LruCache κ ν} {key : κ}
    (missed : cache.get? key = none) : cache.get key = (none, cache) := by
  rw [get, missed]

theorem fst_get [DecidableEq κ] (cache : LruCache κ ν) (key : κ) :
    (cache.get key).1 = cache.get? key := by
  cases found : cache.get? key with
  | some value => rw [get_of_some found]
  | none => rw [get_of_none found]

/-- Caches that are lists give up what has been used least recently. -/
theorem leastRecentlyUsed [DecidableEq κ] :
    (view : CacheView (LruCache κ ν) κ ν).LeastRecentlyUsed where
  capacity_empty _ := rfl
  recency_empty _ := rfl
  get_value := fst_get
  get_misses cache key missed := by
    change (cache.get key).1 = none at missed
    change view.Same cache (cache.get key).2
    rw [fst_get] at missed
    rw [get_of_none missed]
    exact .refl _ _
  get_refreshes cache key value found := by
    change (cache.get key).1 = some value at found
    change view.capacity (cache.get key).2 = _ ∧ view.recency (cache.get key).2 = _
    rw [fst_get] at found
    rw [get_of_some found]
    exact ⟨rfl, rfl⟩
  store_evicts cache key value roomy new := by
    refine ⟨_, if_neg (Int.not_lt.mpr roomy), rfl, ?_⟩
    change (key, value) :: (cache.entries.filter (·.1 ≠ key)).take _ = _
    rw [filter_entries_of_notMem new]
    rfl
  store_refuses _ _ _ full := if_pos full
  size_eq _ := rfl
  keys_perm _ := .refl _

end LruCache

/-! ## Requests for numberings -/

namespace NumberingCache

variable {σ : Type} {view : CacheView σ Scope Numbering} {tree : ScopeTree} {scope : Scope}
    {cache : σ}
  {given : Except Fault Numbering × σ}

/-- What a request for the numbering of a scope comes to, and what is in the cache then. -/
inductive Fetched (view : CacheView σ Scope Numbering) (tree : ScopeTree) (scope : Scope)
    (cache : σ) :
    Except Fault Numbering × σ → Prop
  /-- There is an entry for the scope. -/
  | hit {known : Numbering} {after : σ} (found : (scope, known) ∈ view.recency cache)
      (capacity_eq : view.capacity after = view.capacity cache)
      (recency_eq : view.recency after =
        (scope, known) :: (view.recency cache).filter (·.1 ≠ scope)) :
      Fetched view tree scope cache (.ok known, after)
  /-- The scope is walked, and its numbering takes a place. -/
  | stored {made : Numbering} {after : σ} (new : scope ∉ view.keys cache)
      (numbered : tree.numbering scope.root = .ok made) (roomy : 1 ≤ view.capacity cache)
      (capacity_eq : view.capacity after = view.capacity cache)
      (recency_eq : view.recency after =
        (scope, made) :: (view.recency cache).take (view.capacity cache - 1).toNat) :
      Fetched view tree scope cache (.ok made, after)
  /-- The walk of the scope fails. -/
  | failed {fault : Fault} {after : σ} (numbered : tree.numbering scope.root = .error fault)
      (same : view.Same cache after) : Fetched view tree scope cache (.error fault, after)
  /-- The scope is walked, and there is no place for its numbering. -/
  | refused {made : Numbering} {after : σ} (numbered : tree.numbering scope.root = .ok made)
      (full : view.capacity cache < 1) (same : view.Same cache after) :
      Fetched view tree scope cache (.error .noRoom, after)

/-- A request leaves a cache with its capacity. -/
theorem Fetched.capacity_eq (outcome : Fetched view tree scope cache given) :
    view.capacity given.2 = view.capacity cache := by
  cases outcome with
  | hit _ capacity_eq _ => exact capacity_eq
  | stored _ _ _ capacity_eq _ => exact capacity_eq
  | failed _ same => exact same.capacity_eq
  | refused _ _ same => exact same.capacity_eq

/-- A request brings no other entry in than the numbering that it gives out. -/
theorem Fetched.mem_recency (outcome : Fetched view tree scope cache given)
    {entry : Scope × Numbering} (member : entry ∈ view.recency given.2) :
    entry ∈ view.recency cache ∨ entry.1 = scope ∧ given.1 = .ok entry.2 := by
  cases outcome with
  | hit _ _ recency_eq =>
      rw [recency_eq] at member
      rcases List.mem_cons.mp member with rfl | older
      · exact Or.inr ⟨rfl, rfl⟩
      · exact Or.inl (List.mem_filter.mp older).1
  | stored _ _ _ _ recency_eq =>
      rw [recency_eq] at member
      rcases List.mem_cons.mp member with rfl | older
      · exact Or.inr ⟨rfl, rfl⟩
      · exact Or.inl (List.mem_of_mem_take older)
  | failed _ same => exact Or.inl (same.recency_eq ▸ member)
  | refused _ _ same => exact Or.inl (same.recency_eq ▸ member)

variable [BoundedCache σ Scope Numbering]

/-- What a request comes to, by the laws. -/
theorem fetched (lru : view.LeastRecentlyUsed) (cache : σ) (place : Nat) (tree : ScopeTree)
    (root : Handle) :
    Fetched view tree ⟨place, root⟩ cache (fetch cache place tree root) := by
  have misses := lru.get_misses cache ⟨place, root⟩
  have refreshes := lru.get_refreshes cache ⟨place, root⟩
  have found : ∀ known, (BoundedCache.get cache (⟨place, root⟩ : Scope)).1 = some known →
      (⟨place, root⟩, known) ∈ view.recency cache := fun _ => lru.mem_recency
  have new : (BoundedCache.get cache (⟨place, root⟩ : Scope)).1 = none →
      ⟨place, root⟩ ∉ view.keys cache := lru.notMem_keys_of_get
  simp only [fetch]
  generalize BoundedCache.get cache (⟨place, root⟩ : Scope) = looked at misses refreshes found new ⊢
  obtain ⟨value, after⟩ := looked
  cases value with
  | some known =>
      obtain ⟨capacity_eq, recency_eq⟩ := refreshes known rfl
      exact .hit (found known rfl) capacity_eq recency_eq
  | none =>
      have same := misses rfl
      have new := new rfl
      cases numbered : tree.numbering root with
      | error fault => exact .failed numbered same
      | ok made =>
          by_cases roomy : 1 ≤ view.capacity cache
          · have room_kept : 1 ≤ view.capacity after := same.capacity_eq ▸ roomy
            have still_new : (⟨place, root⟩ : Scope) ∉ view.keys after := same.keys_eq ▸ new
            obtain ⟨last, stored, capacity_eq, recency_eq⟩ :=
              lru.store_evicts after _ made room_kept still_new
            rw [same.capacity_eq, same.recency_eq] at recency_eq
            simp only [stored]
            exact .stored new numbered roomy (capacity_eq.trans same.capacity_eq) recency_eq
          · have full : view.capacity after < 1 := by
              rw [same.capacity_eq]
              omega
            simp only [lru.store_refuses after _ made full]
            exact .refused numbered (Int.not_le.mp roomy) same

end NumberingCache

end BinaryName
