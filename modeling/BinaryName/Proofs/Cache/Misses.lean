import BinaryName.Proofs.Cache.Recency

/-!
# Misses of the numbering cache

A request for a numbering is a hit if its scope is among the latest scopes, as many as there is room
for; otherwise the scope is walked.  So what is walked in the course of an inquiry depends only on
the roots that it asks for one after the other, and these are the same whatever cache answers it.
Where the requests come in rounds, a round that repeats one key misses it once at most.
-/

namespace BinaryName

/-! ## Misses of a list of keys -/

namespace Recency

variable {κ : Type} [DecidableEq κ] {room : Nat} {recency : List κ} {key : κ}

/-- The keys that are not among the latest ones when their turn comes.  The recency lists the
different keys so far, latest first. -/
def misses (room : Nat) (recency : List κ) : List κ → List κ
  | [] => []
  | key :: rest =>
      let later := misses room (key :: recency.filter (· ≠ key)) rest
      if key ∈ recency.take room then later else key :: later

theorem misses_of_hit (hit : key ∈ recency.take room) (rest : List κ) :
    misses room recency (key :: rest) = misses room (key :: recency.filter (· ≠ key)) rest :=
  if_pos hit

theorem misses_of_miss (miss : key ∉ recency.take room) (rest : List κ) :
    misses room recency (key :: rest) =
      key :: misses room (key :: recency.filter (· ≠ key)) rest :=
  if_neg miss

/-- A new key is missed. -/
theorem misses_of_new (new : key ∉ recency) (rest : List κ) :
    misses room recency (key :: rest) = key :: misses room (key :: recency) rest := by
  rw [misses_of_miss fun member => new (List.mem_of_mem_take member), filter_ne_of_notMem new]

theorem misses_sublist (room : Nat) (recency keys : List κ) :
    (misses room recency keys).Sublist keys := by
  induction keys generalizing recency with
  | nil => exact .slnil
  | cons key rest ih =>
      by_cases hit : key ∈ recency.take room
      · rw [misses_of_hit hit]
        exact (ih _).cons key
      · rw [misses_of_miss hit]
        exact (ih _).cons_cons key

/-- A key that has not been used before and is used once is missed once. -/
theorem count_misses_of_new {keys : List κ} (new : key ∉ recency) (once : keys.count key = 1) :
    (misses room recency keys).count key = 1 := by
  induction keys generalizing recency with
  | nil => simp at once
  | cons other rest ih =>
      by_cases same : other = key
      · subst same
        rw [List.count_cons_self, Nat.add_eq_right] at once
        have absent := (misses_sublist room (other :: recency) rest).count_le other
        rw [misses_of_new new, List.count_cons_self]
        omega
      · have further : key ∉ other :: recency.filter (· ≠ other) := by
          simp [new, Ne.symm same]
        rw [List.count_cons_of_ne same] at once
        by_cases hit : other ∈ recency.take room
        · rw [misses_of_hit hit]
          exact ih further once
        · rw [misses_of_miss hit, List.count_cons_of_ne same]
          exact ih further once

/-- A key that is used again and again is missed the first time at most. -/
theorem misses_replicate (positive : 1 ≤ room) (recency rest : List κ) (key : κ) (more : Nat) :
    misses room recency (List.replicate (more + 1) key ++ rest) =
      misses room recency (key :: rest) := by
  have again : ∀ others : List κ, misses room (key :: others.filter (· ≠ key))
      (List.replicate more key ++ rest) = misses room (key :: others.filter (· ≠ key)) rest := by
    intro others
    induction more with
    | zero => rfl
    | succ more ih =>
        have latest : key ∈ (key :: others.filter (· ≠ key)).take room := by
          obtain ⟨less, rfl⟩ := Nat.exists_eq_add_of_le' positive
          exact List.mem_cons_self
        rw [List.replicate_succ, List.cons_append, misses_of_hit latest]
        simpa using ih
  rw [List.replicate_succ, List.cons_append]
  by_cases hit : key ∈ recency.take room
  · rw [misses_of_hit hit, misses_of_hit hit, again]
  · rw [misses_of_miss hit, misses_of_miss hit, again]

/-- Where each element uses its key a number of times in turn, it counts whether it does at all. -/
theorem misses_flatMap_replicate {α : Type} (positive : 1 ≤ room) (recency : List κ) (key : α → κ)
    (times : α → Nat) (elements : List α) :
    misses room recency
        (elements.flatMap fun element => List.replicate (times element) (key element)) =
      misses room recency ((elements.filter (0 < times ·)).map key) := by
  induction elements generalizing recency with
  | nil => rfl
  | cons element rest ih =>
      rw [List.flatMap_cons, List.filter_cons]
      cases times_eq : times element with
      | zero => simpa using ih recency
      | succ more =>
          rw [misses_replicate positive, if_pos (by simp), List.map_cons]
          by_cases hit : key element ∈ recency.take room
          · rw [misses_of_hit hit, misses_of_hit hit, ih]
          · rw [misses_of_miss hit, misses_of_miss hit, ih]

/-- Other keys in the same places are missed in the same places. -/
theorem misses_map {ν : Type} [DecidableEq ν] {change : κ → ν}
    (injective : Function.Injective change) (room : Nat) (recency keys : List κ) :
    misses room (recency.map change) (keys.map change) = (misses room recency keys).map change := by
  induction keys generalizing recency with
  | nil => rfl
  | cons key rest ih =>
      have others : (recency.map change).filter (· ≠ change key) =
          (recency.filter (· ≠ key)).map change := by
        rw [List.filter_map]
        congr 2
        funext other
        simp [injective.eq_iff]
      have hit_iff : change key ∈ (recency.map change).take room ↔ key ∈ recency.take room := by
        rw [← List.map_take, List.mem_map_of_injective injective]
      rw [List.map_cons]
      by_cases hit : key ∈ recency.take room
      · rw [misses_of_hit (hit_iff.mpr hit), misses_of_hit hit, others, ← List.map_cons, ih]
      · rw [misses_of_miss (mt hit_iff.mp hit), misses_of_miss hit, others, ← List.map_cons, ih,
          List.map_cons]

end Recency

/-! ## What an inquiry asks for -/

namespace Inquiry

variable {α β : Type} {tree : ScopeTree} {inquiry : Inquiry α}

/-- The roots of the scopes that an inquiry asks for, one after the other. -/
def requests (tree : ScopeTree) : Inquiry α → List Handle
  | .answer _ | .fail _ => []
  | .ask root next =>
      match tree.numbering root with
      | .ok numbering => root :: (next numbering).requests tree
      | .error _ => []

theorem Silent.requests_eq (silent : inquiry.Silent) : inquiry.requests tree = [] := by
  obtain ⟨outcome, rfl⟩ := silent
  cases outcome <;> rfl

theorem requests_liftM_bind (value : α) (next : α → Inquiry β) :
    ((liftM (Except.ok value : Except Fault α) : Inquiry α) >>= next).requests tree =
      (next value).requests tree := rfl

/-- What comes after a value asks for its own scopes after those before. -/
theorem requests_bind {value : α} (eval_eq : inquiry.eval tree = .ok value)
    (next : α → Inquiry β) :
    (inquiry >>= next).requests tree = inquiry.requests tree ++ (next value).requests tree := by
  induction inquiry with
  | answer given =>
      obtain rfl : given = value := Except.ok.inj eval_eq
      rfl
  | fail fault => contradiction
  | ask root following ih =>
      rw [eval] at eval_eq
      cases numbered : tree.numbering root with
      | error fault => simp [numbered] at eval_eq
      | ok numbering =>
          rw [numbered] at eval_eq
          have step : ((following numbering).andThen next).requests tree =
              (following numbering).requests tree ++ (next value).requests tree :=
            ih numbering eval_eq
          simpa [bind, andThen, requests, numbered] using step

theorem requests_map (change : α → β) (inquiry : Inquiry α) :
    (change <$> inquiry).requests tree = inquiry.requests tree := by
  induction inquiry with
  | answer value => rfl
  | fail fault => rfl
  | ask root following ih =>
      rw [← bind_pure_comp]
      cases numbered : tree.numbering root with
      | error fault => simp [bind, andThen, requests, numbered]
      | ok numbering =>
          have step := ih numbering
          rw [← bind_pure_comp] at step
          simpa [bind, andThen, requests, numbered] using step

end Inquiry

namespace NumberingCache

variable {α σ : Type} [BoundedCache σ Scope Numbering] {view : CacheView σ Scope Numbering}
  {trees : Nat → Option ScopeTree} {cache : σ} {room place : Nat} {tree : ScopeTree}
  {history : List Scope}

/-- The scopes that are walked and stored in the course of an inquiry, as often as they are. -/
def walked (place : Nat) (tree : ScopeTree) : Inquiry α → σ → List Scope
  | .answer _, _ | .fail _, _ => []
  | .ask root next, cache =>
      let scope : Scope := { tree := place, root }
      match fetch cache place tree root with
      | (.ok numbering, after) =>
          let later := walked place tree (next numbering) after
          if (BoundedCache.get cache scope).1.isSome then later else scope :: later
      | (.error _, _) => []

/-- What is walked are the misses among the scopes that the inquiry asks for. -/
theorem walked_eq_misses (lru : view.LeastRecentlyUsed) (follows : view.Follows cache room history)
    (sound : Sound view trees cache) (found : trees place = some tree) (inquiry : Inquiry α) :
    walked place tree inquiry cache =
      Recency.misses room history.reverse.eraseDups
        ((inquiry.requests tree).map fun root => ⟨place, root⟩) := by
  induction inquiry generalizing cache history with
  | answer value => rfl
  | fail fault => rfl
  | ask root next ih =>
      obtain ⟨same, kept⟩ := fetch_sound lru sound found root
      rw [walked, Inquiry.requests, ← same]
      cases fetched_eq : fetch cache place tree root with
      | mk outcome after =>
          rw [fetched_eq] at kept
          cases outcome with
          | error fault => rfl
          | ok numbering =>
              have later := ih numbering (follows_of_fetch_ok lru follows fetched_eq) kept
              rw [eraseDups_reverse_concat] at later
              dsimp only
              rw [List.map_cons, later]
              by_cases hit : (⟨place, root⟩ : Scope) ∈ view.keys cache
              · rw [if_pos (lru.isSome_get_iff.mpr hit), Recency.misses_of_hit]
                rwa [← follows.keys_eq]
              · rw [if_neg (mt lru.isSome_get_iff.mp hit), Recency.misses_of_miss]
                rwa [← follows.keys_eq]

end NumberingCache

end BinaryName
