import Mathlib.Data.Finset.Card
import Mathlib.Data.List.Nodup
import BinaryName.Proofs.Cache.Transparency
import BinaryName.Proofs.Naming.Rules

/-!
# Recency of the numbering cache

The history of a cache is the list of the scopes whose numberings it has given out.  What the cache
holds is settled by its history: the different scopes in it, latest first, as far as there is room.
One request for a numbering adds its scope to the history or leaves the cache alone, hence every
inquiry and every request of a session keeps the cache and its history together.
-/

namespace BinaryName

/-! ## The different elements of a list -/

theorem filter_eraseDups {α : Type} [DecidableEq α] (test : α → Bool) (list : List α) :
    list.eraseDups.filter test = (list.filter test).eraseDups := by
  cases list with
  | nil => rfl
  | cons head rest =>
      have others := filter_eraseDups test (rest.filter fun other => !other == head)
      rw [List.eraseDups_cons, List.filter_cons, List.filter_cons, others, List.filter_filter]
      cases passes : test head with
      | true =>
          rw [if_pos rfl, if_pos rfl, List.eraseDups_cons, List.filter_filter]
          simp only [Bool.and_comm]
      | false =>
          have fails : ∀ other, (test other && !other == head) = test other := by
            intro other
            by_cases same : other = head
            · simp [same, passes]
            · simp [same]
          simp only [fails, Bool.false_eq_true, if_false]
termination_by list.length
decreasing_by exact Nat.lt_succ_of_le (List.length_filter_le _ _)

theorem nodup_eraseDups {α : Type} [DecidableEq α] (list : List α) : list.eraseDups.Nodup := by
  cases list with
  | nil => exact .nil
  | cons head rest =>
      rw [List.eraseDups_cons]
      apply List.nodup_cons.mpr
      constructor
      · simp [List.mem_eraseDups]
      · exact nodup_eraseDups (rest.filter fun other => !other == head)
termination_by list.length
decreasing_by exact Nat.lt_succ_of_le (List.length_filter_le _ _)

theorem filter_ne_of_notMem {α : Type} [DecidableEq α] {list : List α} {element : α}
    (new : element ∉ list) : list.filter (· ≠ element) = list := by
  rw [List.filter_eq_self]
  intro other member
  have differ : other ≠ element := ne_of_mem_of_not_mem member new
  simpa using differ

/-- Whether a list is cut short before or after an element is taken out of it makes no difference if
one place is kept for that element. -/
theorem take_filter_take {α : Type} [DecidableEq α] {list : List α} (distinct : list.Nodup)
    (element : α) (room : Nat) :
    ((list.take room).filter (· ≠ element)).take (room - 1) =
      (list.filter (· ≠ element)).take (room - 1) := by
  induction list generalizing room with
  | nil => simp
  | cons head rest ih =>
      obtain ⟨head_new, rest_distinct⟩ := List.nodup_cons.mp distinct
      cases room with
      | zero => simp
      | succ room =>
          rw [List.take_succ_cons, Nat.add_sub_cancel, List.filter_cons, List.filter_cons]
          by_cases same : head = element
          · -- The element occurs here only, so that both sides are the rest up to the same place.
            have absent : element ∉ rest := same ▸ head_new
            have also_absent : element ∉ rest.take room := mt List.mem_of_mem_take absent
            simp only [same, ne_eq, not_true_eq_false, decide_false, Bool.false_eq_true, if_false]
            rw [filter_ne_of_notMem absent, filter_ne_of_notMem also_absent, List.take_take,
              Nat.min_self]
          · simp only [same, ne_eq, not_false_eq_true, decide_true, if_true]
            cases room with
            | zero => simp
            | succ room =>
                rw [List.take_succ_cons, List.take_succ_cons]
                exact congrArg _ (ih rest_distinct (room + 1))

/-- The key used last is the latest, and the others stay in order. -/
theorem eraseDups_reverse_concat {α : Type} [DecidableEq α] (history : List α) (key : α) :
    (history ++ [key]).reverse.eraseDups = key :: history.reverse.eraseDups.filter (· ≠ key) := by
  have other_eq : (fun other : α => !other == key) = fun other => decide (other ≠ key) := by
    funext other
    by_cases same : other = key <;> simp [same]
  rw [List.reverse_append, List.reverse_singleton, List.singleton_append, List.eraseDups_cons,
    ← filter_eraseDups, other_eq]

theorem take_eraseDups_concat {α : Type} [DecidableEq α] {room : Nat} (positive : 1 ≤ room)
    (history : List α) (key : α) :
    (history ++ [key]).reverse.eraseDups.take room =
      key :: (history.reverse.eraseDups.filter (· ≠ key)).take (room - 1) := by
  obtain ⟨less, rfl⟩ : ∃ less, room = less + 1 := ⟨room - 1, by omega⟩
  rw [eraseDups_reverse_concat, List.take_succ_cons, Nat.add_sub_cancel]

/-! ## Histories -/

namespace CacheView

variable {σ κ ν : Type} [DecidableEq κ] {view : CacheView σ κ ν}

/-- The cache holds the different keys of a history, latest first, as far as there is room. -/
structure Follows (view : CacheView σ κ ν) (cache : σ) (room : Nat) (history : List κ) : Prop where
  capacity_eq : view.capacity cache = room
  keys_eq : view.keys cache = history.reverse.eraseDups.take room

variable {cache after : σ} {room : Nat} {history : List κ} {key : κ} {value : ν}

theorem Follows.of_same (follows : view.Follows cache room history)
    (same : view.Same cache after) : view.Follows after room history :=
  ⟨same.capacity_eq.trans follows.capacity_eq, same.keys_eq.trans follows.keys_eq⟩

/-- A key in the cache becomes the latest. -/
theorem Follows.refresh (follows : view.Follows cache room history)
    (member : (key, value) ∈ view.recency cache)
    (capacity_eq : view.capacity after = view.capacity cache)
    (recency_eq : view.recency after =
      (key, value) :: (view.recency cache).filter (·.1 ≠ key)) :
    view.Follows after room (history ++ [key]) := by
  have held : key ∈ view.keys cache := List.mem_map_of_mem member
  have fewer : ((view.keys cache).filter (· ≠ key)).length < (view.keys cache).length :=
    List.length_filter_lt_length_iff_exists.mpr ⟨key, held, by simp⟩
  have bounded : (view.keys cache).length ≤ room := by
    rw [follows.keys_eq]
    exact List.length_take_le _ _
  have keys_eq : view.keys after = key :: (view.keys cache).filter (· ≠ key) := by
    rw [keys, recency_eq, List.map_cons, keys, List.filter_map]
    rfl
  refine ⟨capacity_eq.trans follows.capacity_eq, ?_⟩
  rw [keys_eq, take_eraseDups_concat (by omega) history key,
    ← take_filter_take (nodup_eraseDups _) key room, ← follows.keys_eq,
    List.take_of_length_le (by omega)]

/-- A new key becomes the latest. -/
theorem Follows.enter (follows : view.Follows cache room history)
    (new : key ∉ view.keys cache) (roomy : 1 ≤ view.capacity cache)
    (capacity_eq : view.capacity after = view.capacity cache)
    (recency_eq : view.recency after =
      (key, value) :: (view.recency cache).take (view.capacity cache - 1).toNat) :
    view.Follows after room (history ++ [key]) := by
  have room_eq := follows.capacity_eq
  have less_eq : (view.capacity cache - 1).toNat = room - 1 := by omega
  have keys_eq : view.keys after = key :: (view.keys cache).take (room - 1) := by
    rw [keys, recency_eq, less_eq, List.map_cons, List.map_take, keys]
  refine ⟨capacity_eq.trans room_eq, ?_⟩
  rw [keys_eq, take_eraseDups_concat (by omega) history key,
    ← take_filter_take (nodup_eraseDups _) key room, ← follows.keys_eq, filter_ne_of_notMem new]

theorem Follows.length_keys (follows : view.Follows cache room history) :
    (view.keys cache).length = min room history.toFinset.card := by
  have same : history.toFinset = history.reverse.eraseDups.toFinset := by
    ext key
    simp [List.mem_eraseDups]
  rw [follows.keys_eq, List.length_take, same, List.toFinset_card_of_nodup (nodup_eraseDups _)]

theorem Follows.head?_keys (follows : view.Follows cache room (history ++ [key]))
    (positive : 1 ≤ room) : (view.keys cache).head? = some key := by
  rw [follows.keys_eq, take_eraseDups_concat positive]
  rfl

variable [BoundedCache σ κ ν]

theorem follows_empty (lru : view.LeastRecentlyUsed) (room : Nat) :
    view.Follows (BoundedCache.empty room : σ) room [] :=
  ⟨lru.capacity_empty room, by simp [lru.keys_empty]⟩

theorem Follows.size_eq (lru : view.LeastRecentlyUsed) (follows : view.Follows cache room history) :
    BoundedCache.size cache = min room history.toFinset.card :=
  (lru.size_eq_length_keys cache).trans follows.length_keys

/-- A longer history takes no less room. -/
theorem Follows.size_le (lru : view.LeastRecentlyUsed) (follows : view.Follows cache room history)
    {later : List κ} (further : view.Follows after room (history ++ later)) :
    BoundedCache.size cache ≤ BoundedCache.size after := by
  have more : history.toFinset.card ≤ (history ++ later).toFinset.card := by
    apply Finset.card_le_card
    intro key member
    rw [List.mem_toFinset] at member ⊢
    exact List.mem_append_left _ member
  rw [follows.size_eq lru, further.size_eq lru]
  omega

end CacheView

namespace NumberingCache

variable {α σ : Type} [BoundedCache σ Scope Numbering] {view : CacheView σ Scope Numbering}
  {cache after : σ} {room : Nat} {history : List Scope} {place : Nat} {tree : ScopeTree}

/-- The scopes of the numberings that are given out in the course of an inquiry. -/
def returned (place : Nat) (tree : ScopeTree) : Inquiry α → σ → List Scope
  | .answer _, _ | .fail _, _ => []
  | .ask root next, cache =>
      match fetch cache place tree root with
      | (.ok numbering, after) => ⟨place, root⟩ :: returned place tree (next numbering) after
      | (.error _, _) => []

/-- A numbering that cannot be given out leaves contents and recency as they are. -/
theorem same_of_fetch_error (lru : view.LeastRecentlyUsed) {root : Handle} {fault : Fault}
    (fetched_eq : fetch cache place tree root = (.error fault, after)) : view.Same cache after := by
  have outcome := fetched lru cache place tree root
  rw [fetched_eq] at outcome
  cases outcome with
  | failed _ same => exact same
  | refused _ _ same => exact same

/-- A numbering that is given out makes its scope the latest. -/
theorem follows_of_fetch_ok (lru : view.LeastRecentlyUsed)
    (follows : view.Follows cache room history)
    {root : Handle} {numbering : Numbering}
    (fetched_eq : fetch cache place tree root = (.ok numbering, after)) :
    view.Follows after room (history ++ [⟨place, root⟩]) := by
  have outcome := fetched lru cache place tree root
  rw [fetched_eq] at outcome
  cases outcome with
  | hit found capacity_eq recency_eq => exact follows.refresh found capacity_eq recency_eq
  | stored new _ roomy capacity_eq recency_eq =>
      exact follows.enter new roomy capacity_eq recency_eq

theorem run_follows (lru : view.LeastRecentlyUsed) (follows : view.Follows cache room history)
    (inquiry : Inquiry α) :
    view.Follows (run place tree inquiry cache).2 room
      (history ++ returned place tree inquiry cache) := by
  induction inquiry generalizing cache history with
  | answer value => simpa [run, returned] using follows
  | fail fault => simpa [run, returned] using follows
  | ask root next ih =>
      cases fetched_eq : fetch cache place tree root with
      | mk outcome after =>
          cases outcome with
          | error fault =>
              simpa [run, returned, fetched_eq] using
                follows.of_same (same_of_fetch_error lru fetched_eq)
          | ok numbering =>
              simpa [run, returned, fetched_eq] using
                ih numbering (follows_of_fetch_ok lru follows fetched_eq)

end NumberingCache

/-! ## Inquiries that ask for nothing -/

namespace Inquiry

variable {α β : Type}

/-- The inquiry comes to its end without asking for a numbering. -/
def Silent (inquiry : Inquiry α) : Prop := ∃ outcome, inquiry = ofExcept outcome

theorem silent_liftM (outcome : Except Fault α) : (liftM outcome : Inquiry α).Silent :=
  ⟨outcome, rfl⟩

theorem silent_fail (fault : Fault) : (fail fault : Inquiry α).Silent := ⟨.error fault, rfl⟩

/-- Only what comes after an outcome that is a value has to be silent. -/
theorem silent_bind {outcome : Except Fault α} {next : α → Inquiry β}
    (silent : ∀ value, outcome = .ok value → (next value).Silent) :
    ((liftM outcome : Inquiry α) >>= next).Silent := by
  cases outcome with
  | error fault => exact silent_fail fault
  | ok value => exact silent value rfl

theorem Silent.map {inquiry : Inquiry α} (silent : inquiry.Silent) (change : α → β) :
    (change <$> inquiry).Silent := by
  obtain ⟨outcome, rfl⟩ := silent
  cases outcome with
  | error fault => exact silent_fail fault
  | ok value => exact ⟨.ok (change value), rfl⟩

/-- An inquiry that asks for nothing leaves the cache as it is. -/
theorem Silent.run_eq {σ : Type} [BoundedCache σ Scope Numbering] {inquiry : Inquiry α}
    (silent : inquiry.Silent) (place : Nat) (tree : ScopeTree) (cache : σ) :
    (NumberingCache.run place tree inquiry cache).2 = cache := by
  obtain ⟨outcome, rfl⟩ := silent
  cases outcome <;> rfl

end Inquiry

namespace Resolution

open ScopeTree Inquiry

variable {tree : ScopeTree} {around : Handle → Inquiry Resolution} {node : Handle}

/-- The rule for functions asks for nothing, or it goes on with the rule for anonymous classes, or
it hands on what is known of the class that holds the function. -/
inductive FunctionRule (tree : ScopeTree) (around : Handle → Inquiry Resolution) (node : Handle) :
    Inquiry Resolution → Prop
  | silent {inquiry : Inquiry Resolution} (silent : inquiry.Silent) :
      FunctionRule tree around node inquiry
  | anonymous (not_top : tree.plays .topLevelFunction node = .ok false)
      (inner : tree.plays .localFunction node = .ok true) :
      FunctionRule tree around node (ofAnonymous tree around node)
  | member {parent : Handle} (parent_eq : tree.parent node = .ok (some parent))
      (klass : tree.kind parent = .ok .klass)
      (outside : tree.plays .localFunction node = .ok false) :
      FunctionRule tree around node (do
        let outer ← around parent
        pure { name := outer.name, rule := .memberFunction, index := none, base := some parent })

/-- Only what comes after an outcome that is a value has to be taken apart. -/
theorem FunctionRule.bind {α : Type} {outcome : Except Fault α} {next : α → Inquiry Resolution}
    (rule : ∀ value, outcome = .ok value → FunctionRule tree around node (next value)) :
    FunctionRule tree around node ((liftM outcome : Inquiry α) >>= next) := by
  cases outcome with
  | error fault => exact .silent (silent_fail fault)
  | ok value => exact rule value rfl

theorem functionRule_ofFunction (tree : ScopeTree) (around : Handle → Inquiry Resolution)
    (node : Handle) : FunctionRule tree around node (ofFunction tree around node) := by
  rw [ofFunction]
  apply FunctionRule.bind
  intro parent holder_eq
  apply FunctionRule.bind
  intro top top_eq
  cases top with
  | true =>
      refine .silent (silent_bind fun path _ => silent_bind fun name _ => ?_)
      exact silent_liftM (.ok _)
  | false =>
      apply FunctionRule.bind
      intro inner inner_eq
      cases inner with
      | true => exact .anonymous top_eq inner_eq
      | false =>
          apply FunctionRule.bind
          intro member member_eq
          cases member with
          | true =>
              have parent_eq := parent_of_holder holder_eq
              exact .member parent_eq (kind_of_member parent_eq member_eq) inner_eq
          | false => exact .silent (silent_bind fun caption _ => silent_liftM _)

end Resolution

namespace ScopeTree

open Inquiry

variable {tree : ScopeTree} {node : Handle}

/-- The name of the node has no index: the node is no lambda or local function, or it is a function
directly in a file or package. -/
def Unnumbered (tree : ScopeTree) (node : Handle) : Prop :=
  tree.isAnonymous node ≠ .ok true ∨ tree.plays .topLevelFunction node = .ok true

theorem Unnumbered.silent_ofFunction (unnumbered : tree.Unnumbered node) (rounds : Nat) :
    (Resolution.ofFunction tree (Resolution.within tree (rounds + 1)) node).Silent := by
  have rule := Resolution.functionRule_ofFunction tree (Resolution.within tree (rounds + 1)) node
  generalize
    Resolution.ofFunction tree (Resolution.within tree (rounds + 1)) node = inquiry at rule ⊢
  cases rule with
  | silent silent => exact silent
  | anonymous not_top inner =>
      rcases unnumbered with other | top
      · exact absurd (isAnonymous_of_localFunction inner) other
      · simp [not_top] at top
  | member parent_eq klass outside =>
      rw [Resolution.within, Resolution.ofNode_klass klass]
      exact silent_bind fun outer _ => silent_liftM (.ok _)

/-- Naming a node without an index asks for no numbering. -/
theorem Unnumbered.silent (unnumbered : tree.Unnumbered node) : (tree.resolve node).Silent := by
  rw [resolve, Resolution.within]
  cases kind_eq : tree.kind node with
  | error fault =>
      rw [Resolution.ofNode, kind_eq]
      exact silent_fail fault
  | ok kind =>
      cases kind with
      | klass =>
          rw [Resolution.ofNode_klass kind_eq]
          exact silent_liftM _
      | function =>
          rw [Resolution.ofNode_function kind_eq]
          exact unnumbered.silent_ofFunction 1
      | lambda =>
          have not_top : tree.plays .topLevelFunction node = .ok false := by
            rw [plays, isPlaced, hasKind, kind_eq]
            rfl
          rcases unnumbered with other | top
          · exact absurd (isAnonymous_of_lambda kind_eq) other
          · simp [not_top] at top
      | file | package =>
          rw [Resolution.ofNode, kind_eq, Resolution.liftM_ok, pure_bind]
          exact silent_bind fun caption _ => silent_fail _
      | unknown tag =>
          rw [Resolution.ofNode_plain kind_eq]
          exact silent_fail _

end ScopeTree

namespace Session

open NumberingCache

variable {σ : Type} [BoundedCache σ Scope Numbering]

/-- The scopes of the numberings that are given out in the course of a request. -/
def returned (session : Session σ) (cache : σ) (request : Request) : List Scope :=
  match session.asked? request with
  | none => []
  | some (place, tree, inquiry) => NumberingCache.returned place tree inquiry cache

/-- The scopes of the numberings that are given out while requests are served in turn. -/
def history (session : Session σ) (cache : σ) : List Request → List Scope
  | [] => []
  | request :: rest =>
      session.returned cache request ++ session.history (session.serve cache request).2 rest

variable {view : CacheView σ Scope Numbering} {session : Session σ} {cache : σ} {room : Nat}
  {past : List Scope}

theorem history_congr {other : Session σ} (trees_eq : session.trees = other.trees) (cache : σ)
    (requests : List Request) : session.history cache requests = other.history cache requests := by
  have returned_eq : session.returned = other.returned := by
    obtain ⟨trees, caches⟩ := session
    obtain ⟨otherTrees, otherCaches⟩ := other
    obtain rfl : trees = otherTrees := trees_eq
    funext cache request
    cases request <;> rfl
  induction requests generalizing cache with
  | nil => rfl
  | cons request rest ih => rw [history, history, serve_congr trees_eq, returned_eq, ih]

/-- A request keeps the cache and its history together, whether it gets a reply or not. -/
theorem serve_follows (lru : view.LeastRecentlyUsed) (session : Session σ)
    (follows : view.Follows cache room past) (request : Request) :
    view.Follows (session.serve cache request).2 room (past ++ session.returned cache request) := by
  rcases session.serve_cases request with
    ⟨asked_eq, refused, served⟩ | ⟨place, tree, inquiry, asked_eq, -, served⟩
  · rw [served, returned, asked_eq]
    simpa using follows
  · rw [served, returned, asked_eq]
    exact run_follows lru follows inquiry

theorem step?_only (only : session.caches = #[cache]) (request : Request) :
    session.step? 0 request =
      some (report (session.serve cache request),
        { session with caches := #[(session.serve cache request).2] }) := by
  have cache_eq : session.caches[0]? = some cache := by
    rw [only]
    rfl
  have caches_eq : session.caches.setIfInBounds 0 (session.serve cache request).2 =
      #[(session.serve cache request).2] := by
    rw [only]
    rfl
  rw [step?, cache_eq, Option.bind_eq_bind, Option.bind_some]
  dsimp only
  rw [caches_eq]
  rfl

/-- Requests served in turn keep the cache and its history together, and the cache never shrinks. -/
theorem run?_follows (lru : view.LeastRecentlyUsed) (follows : view.Follows cache room past)
    (requests : List Request) (only : session.caches = #[cache]) :
    ∃ reports last, session.run? (requests.map (0, ·)) =
        some (reports, { session with caches := #[last] }) ∧
      view.Follows last room (past ++ session.history cache requests) ∧
      (reports.map Report.size).Pairwise (· ≤ ·) ∧
      ∀ report ∈ reports, BoundedCache.size cache ≤ report.size ∧ report.size ≤ room := by
  induction requests generalizing session cache past with
  | nil =>
      refine ⟨[], cache, ?_, by simpa [history] using follows, .nil, by simp⟩
      rw [← only]
      rfl
  | cons request rest ih =>
      let after := (session.serve cache request).2
      have served : view.Follows after room _ := session.serve_follows lru follows request
      have grown : BoundedCache.size cache ≤ BoundedCache.size after := follows.size_le lru served
      have bounded : BoundedCache.size after ≤ room := by
        rw [served.size_eq lru]
        exact Nat.min_le_left _ _
      let next : Session σ := { session with caches := #[after] }
      have history_eq : next.history = session.history := by
        funext cache requests
        exact @history_congr _ _ next session rfl cache requests
      obtain ⟨reports, last, ran, further, sizes, bounds⟩ := @ih next _ _ served rfl
      refine ⟨report (session.serve cache request) :: reports, last, ?_, ?_, ?_, ?_⟩
      · rw [List.map_cons, run?, step?_only only, Option.bind_eq_bind, Option.bind_some]
        change (next.run? (rest.map (0, ·)) >>= _) = _
        rw [ran]
        rfl
      · rw [history, ← List.append_assoc, ← history_eq]
        exact further
      · apply List.pairwise_cons.mpr
        constructor
        · intro size member
          obtain ⟨later, later_member, rfl⟩ := List.mem_map.mp member
          exact (bounds later later_member).1
        · exact sizes
      · intro other member
        rcases List.mem_cons.mp member with rfl | later
        · exact ⟨grown, bounded⟩
        · exact ⟨grown.trans (bounds other later).1, (bounds other later).2⟩

/-- A cache that gives up what has been used least recently holds the scopes whose numberings it has
given out, each once and latest first, as far as there is room.  So it never shrinks.  A numbering
that fails and a name without an index leave it as it is.  A numbering that is given out stays in
it, also if the request gets no reply. -/
theorem run?_keys_latest (lru : view.LeastRecentlyUsed) (trees : Array LabelledTree) (room : Nat)
    (positive : 1 ≤ room) (requests : List Request) :
    let session : Session σ := { trees, caches := #[BoundedCache.empty room] }
    let past := session.history (BoundedCache.empty room) requests
    ∃ reports cache,
      session.run? (requests.map (0, ·)) = some (reports, { trees, caches := #[cache] }) ∧
      view.keys cache = past.reverse.eraseDups.take room ∧
      (NumberingCache.scopes cache).Perm (view.keys cache) ∧
      BoundedCache.size cache = min room past.toFinset.card ∧
      (reports.map Report.size).Pairwise (· ≤ ·) ∧ (∀ report ∈ reports, report.size ≤ room) ∧
      (∀ place tree root fault, (fetch cache place tree root).1 = .error fault →
        view.Same cache (fetch cache place tree root).2) ∧
      (∀ place tree node, session.locate place = .ok (tree, node) → tree.Unnumbered node →
        (session.serve cache (.about .name place)).2 = cache ∧
          (session.serve cache (.about .resolution place)).2 = cache) ∧
      ∀ request scope, (session.returned cache request).getLast? = some scope →
        (view.keys (session.serve cache request).2).head? = some scope := by
  intro session past
  obtain ⟨reports, cache, ran, follows, sizes, bounds⟩ :=
    @run?_follows σ _ view session _ _ _ lru (CacheView.follows_empty lru room) requests rfl
  refine ⟨reports, cache, ran, follows.keys_eq,
    (List.mergeSort_perm _ _).trans (lru.keys_perm cache), follows.size_eq lru, sizes,
    fun report member => (bounds report member).2, ?_, ?_, ?_⟩
  · intro place tree root fault failed
    exact same_of_fetch_error lru (Prod.ext failed rfl)
  · intro place tree node located unnumbered
    have silent := unnumbered.silent
    simp only [serve, located]
    exact ⟨((silent.map Resolution.name).map Reply.text).run_eq _ _ _,
      (silent.map Reply.resolution).run_eq _ _ _⟩
  · intro request scope last
    obtain ⟨front, returned_eq⟩ := List.getLast?_eq_some_iff.mp last
    have served := session.serve_follows lru follows request
    rw [returned_eq, ← List.append_assoc] at served
    exact served.head?_keys positive

/-- Requests about two trees with the same records, which give out the numberings of three
scopes. -/
def rotation : List Request :=
  [.about .numbering ⟨0, .handle 0⟩, .about .index ⟨0, .handle 3⟩, .about .name ⟨1, .handle 3⟩,
    .about .index ⟨1, .handle 1⟩, .about .resolution ⟨0, .handle 3⟩]

/-- The scope of the file has been driven out, and the class of the first tree was used last. -/
theorem run?_keys_latest_rotation :
    1 ≤ 2 ∧ ∃ reports, ∃ cache : NumberingCache,
      Session.run?
          { trees := #[singleClass, singleClass], caches := #[(.empty (2 : Nat) : NumberingCache)] }
          (rotation.map (0, ·)) =
        some (reports, { trees := #[singleClass, singleClass], caches := #[cache] }) ∧
      LruCache.view.keys cache = [⟨0, 1⟩, ⟨1, 1⟩] ∧ BoundedCache.size cache = 2 := by
  obtain ⟨reports, cache, ran, keys_eq, -, size_eq, -⟩ :=
    run?_keys_latest LruCache.leastRecentlyUsed #[singleClass, singleClass] 2 (by decide) rotation
  exact ⟨by decide, reports, cache, ran, keys_eq, size_eq⟩

end Session

end BinaryName
