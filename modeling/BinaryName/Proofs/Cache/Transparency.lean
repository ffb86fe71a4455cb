import Mathlib.Data.List.Forall2
import BinaryName.Proofs.Cache.Laws
import BinaryName.Session

/-!
# Transparency of the numbering cache

A cache that holds only what a walk would give, and that has room for an entry, never shows in an
answer.  One request for a numbering keeps the cache so, hence every inquiry does, and the outcomes
of a whole session are those of resolvers that have just been made.  Of the cache nothing is used
but its laws.
-/

namespace BinaryName

variable {σ : Type} {view : CacheView σ Scope Numbering}

namespace NumberingCache

/-- Every entry is what a walk of its scope gives, and there is a place for another one. -/
structure Sound (view : CacheView σ Scope Numbering) (trees : Nat → Option ScopeTree) (cache : σ) :
    Prop where
  /-- The cache has a place. -/
  roomy : 1 ≤ view.capacity cache
  /-- The entries are the numberings of their scopes. -/
  faithful : ∀ entry ∈ view.recency cache, ∃ tree,
    trees entry.1.tree = some tree ∧ tree.numbering entry.1.root = .ok entry.2

variable {trees : Nat → Option ScopeTree} {cache after : σ} {place : Nat} {tree : ScopeTree}

variable [BoundedCache σ Scope Numbering]

theorem sound_empty (lru : view.LeastRecentlyUsed) {capacity : Int} (roomy : 1 ≤ capacity) :
    Sound view trees (BoundedCache.empty capacity) := by
  refine ⟨by rwa [lru.capacity_empty], ?_⟩
  rw [lru.recency_empty]
  exact fun _ member => absurd member List.not_mem_nil

/-- A sound cache gives what a walk gives, and stays sound. -/
theorem fetch_sound (lru : view.LeastRecentlyUsed) (sound : Sound view trees cache)
    (found : trees place = some tree) (root : Handle) :
    (fetch cache place tree root).1 = tree.numbering root ∧
      Sound view trees (fetch cache place tree root).2 := by
  have outcome := fetched lru cache place tree root
  have given_eq : (fetch cache place tree root).1 = tree.numbering root := by
    generalize fetch cache place tree root = given at outcome ⊢
    cases outcome with
    | hit member _ _ =>
        obtain ⟨other, other_found, numbered⟩ := sound.faithful _ member
        obtain rfl : tree = other := Option.some.inj (found.symm.trans other_found)
        exact numbered.symm
    | stored _ numbered _ _ _ => exact numbered.symm
    | failed numbered _ => exact numbered.symm
    | refused _ full _ => exact absurd sound.roomy (Int.not_le.mpr full)
  refine ⟨given_eq, outcome.capacity_eq ▸ sound.roomy, ?_⟩
  intro entry member
  rcases outcome.mem_recency member with older | ⟨scope_eq, given⟩
  · exact sound.faithful entry older
  · rw [scope_eq, ← given, given_eq]
    exact ⟨tree, found, rfl⟩

/-- An inquiry that is served from a sound cache comes out as without a cache. -/
theorem run_sound {α : Type} (lru : view.LeastRecentlyUsed) (found : trees place = some tree)
    (inquiry : Inquiry α) (sound : Sound view trees cache) :
    (run place tree inquiry cache).1 = inquiry.eval tree ∧
      Sound view trees (run place tree inquiry cache).2 := by
  induction inquiry generalizing cache with
  | answer value => exact ⟨rfl, sound⟩
  | fail fault => exact ⟨rfl, sound⟩
  | ask root next ih =>
      obtain ⟨same, kept⟩ := fetch_sound lru sound found root
      rw [run, Inquiry.eval, ← same]
      generalize fetch cache place tree root = fetched at kept ⊢
      obtain ⟨outcome, after⟩ := fetched
      cases outcome with
      | ok numbering => exact ih numbering kept
      | error fault => exact ⟨rfl, kept⟩

/-- With an empty cache that has room, an inquiry comes out as without a cache. -/
theorem run_empty_eq_eval {α : Type} (lru : view.LeastRecentlyUsed) {capacity : Int}
    (roomy : 1 ≤ capacity) (place : Nat) (tree : ScopeTree) (inquiry : Inquiry α) :
    (run place tree inquiry (BoundedCache.empty capacity : σ)).1 = inquiry.eval tree := by
  have sound : Sound view (fun _ => some tree) (BoundedCache.empty capacity : σ) :=
    sound_empty lru roomy
  exact (run_sound lru rfl inquiry sound).1

end NumberingCache

/-- With a cache of its own, an inquiry comes out as without a cache. -/
theorem Inquiry.outcome_eq_eval {α : Type} (inquiry : Inquiry α) (tree : ScopeTree) :
    inquiry.outcome tree = inquiry.eval tree :=
  NumberingCache.run_empty_eq_eval LruCache.leastRecentlyUsed (by decide) 0 tree inquiry

namespace Session

open NumberingCache

variable {session : Session σ}

/-- The tree at each place of a session, without its labels. -/
def trees? (session : Session σ) (place : Nat) : Option ScopeTree :=
  session.trees[place]?.map LabelledTree.tree

theorem trees?_of_tree {place : Nat} {labelled : LabelledTree}
    (found : session.tree place = .ok labelled) : session.trees? place = some labelled.tree := by
  unfold tree at found
  unfold trees?
  split at found
  · simp_all
  · contradiction

theorem trees?_of_locate {place : Place} {tree : ScopeTree} {node : Handle}
    (found : session.locate place = .ok (tree, node)) :
    session.trees? place.tree = some tree := by
  unfold locate at found
  cases tree_eq : session.tree place.tree with
  | error refusal => simp [tree_eq, bind, Except.bind] at found
  | ok labelled =>
      cases find_eq : labelled.find place.reference with
      | error fault => simp [tree_eq, find_eq, bind, Except.bind] at found
      | ok met =>
          obtain ⟨rfl, -⟩ : labelled.tree = tree ∧ met = node := by
            simpa [tree_eq, find_eq, bind, Except.bind, pure, Except.pure] using found
          exact trees?_of_tree tree_eq

/-- What a request asks a cache: an inquiry about the tree at a place, or nothing. -/
def asked? (session : Session σ) : Request → Option (Nat × ScopeTree × Inquiry Reply)
  | .about question place =>
      match session.locate place with
      | .error _ => none
      | .ok (tree, node) => some (place.tree, tree, question.inquiry tree node)
  | .check place expected =>
      match session.locate place with
      | .error _ => none
      | .ok (tree, node) => some (place.tree, tree, Reply.verdict <$> tree.check node expected)
  | .classNames place =>
      match session.tree place with
      | .error _ => none
      | .ok labelled => some (place, labelled.tree, Reply.names <$> labelled.tree.classNames)
  | .same _ _ => none

variable [BoundedCache σ Scope Numbering]

/-! ## One request -/

/-- A request is answered without a cache, or it is an inquiry about a tree of the session. -/
theorem serve_cases (session : Session σ) (request : Request) :
    (session.asked? request = none ∧
        ∃ refused, ∀ cache : σ, session.serve cache request = (refused, cache)) ∨
      ∃ place tree inquiry, session.asked? request = some (place, tree, inquiry) ∧
        session.trees? place = some tree ∧
        ∀ cache : σ, session.serve cache request = ask cache place tree inquiry := by
  cases request with
  | about question place =>
      cases located : session.locate place with
      | error refusal =>
          exact Or.inl ⟨by simp only [asked?, located], .error refusal,
            fun cache => by simp only [serve, located]⟩
      | ok found =>
          exact Or.inr ⟨place.tree, found.1, question.inquiry found.1 found.2,
            by simp only [asked?, located], trees?_of_locate located,
            fun cache => by simp only [serve, located]⟩
  | check place expected =>
      cases located : session.locate place with
      | error refusal =>
          exact Or.inl ⟨by simp only [asked?, located], .error refusal,
            fun cache => by simp only [serve, located]⟩
      | ok found =>
          exact Or.inr ⟨place.tree, found.1, Reply.verdict <$> found.1.check found.2 expected,
            by simp only [asked?, located], trees?_of_locate located,
            fun cache => by simp only [serve, located]⟩
  | classNames place =>
      cases located : session.tree place with
      | error refusal =>
          exact Or.inl ⟨by simp only [asked?, located], .error refusal,
            fun cache => by simp only [serve, located]⟩
      | ok labelled =>
          exact Or.inr ⟨place, labelled.tree, Reply.names <$> labelled.tree.classNames,
            by simp only [asked?, located], trees?_of_tree located,
            fun cache => by simp only [serve, located]⟩
  | same place other => exact Or.inl ⟨rfl, _, fun _ => rfl⟩

/-- A request that is served with a sound cache gets the reply of any other sound cache. -/
theorem serve_sound (lru : view.LeastRecentlyUsed) {cache other : σ}
    (sound : Sound view session.trees? cache) (otherSound : Sound view session.trees? other)
    (request : Request) :
    (session.serve cache request).1 = (session.serve other request).1 ∧
      Sound view session.trees? (session.serve cache request).2 := by
  rcases session.serve_cases request with
    ⟨-, refused, served⟩ | ⟨place, tree, inquiry, -, found, served⟩
  · rw [served, served]
    exact ⟨rfl, sound⟩
  · obtain ⟨here, kept⟩ := run_sound lru found inquiry sound
    have there := (run_sound lru found inquiry otherSound).1
    rw [served, served]
    exact ⟨congrArg (Except.mapError Refusal.naming) (here.trans there.symm), kept⟩

/-- Which caches a session has is all the same to a request that is served with a given one. -/
theorem serve_congr {other : Session σ} (trees_eq : session.trees = other.trees) (cache : σ)
    (request : Request) : session.serve cache request = other.serve cache request := by
  obtain ⟨trees, caches⟩ := session
  obtain ⟨otherTrees, otherCaches⟩ := other
  obtain rfl : trees = otherTrees := trees_eq
  cases request <;> rfl

/-! ## Requests in turn -/

section Keeps

variable (session : Session σ) (holds : σ → Prop) (fits : Request → Report → Prop)

/-- A request leaves a session with its trees, and with caches of which still holds what serving
keeps. -/
theorem step?_keeps
    (keeps : ∀ cache request, holds cache →
      holds (session.serve cache request).2 ∧ fits request (report (session.serve cache request)))
    (held : ∀ cache ∈ session.caches, holds cache) {number : Nat}
    (inside : number < session.caches.size) (request : Request) :
    ∃ given after, session.step? number request = some (given, after) ∧ fits request given ∧
      after.trees = session.trees ∧ after.caches.size = session.caches.size ∧
      ∀ cache ∈ after.caches, holds cache := by
  let served := session.serve session.caches[number] request
  obtain ⟨kept, fit⟩ := keeps _ request (held _ (Array.getElem_mem inside))
  have cache_eq : session.caches[number]? = some session.caches[number] :=
    Array.getElem?_eq_getElem inside
  refine ⟨report served, { session with caches := session.caches.setIfInBounds number served.2 },
    by rw [step?, cache_eq]; rfl, fit, rfl, Array.size_setIfInBounds, ?_⟩
  intro cache member
  rcases Array.mem_or_eq_of_mem_setIfInBounds member with older | rfl
  · exact held cache older
  · exact kept

/-- What serving one request keeps holds of all caches after many. -/
theorem run?_keeps
    (keeps : ∀ cache request, holds cache →
      holds (session.serve cache request).2 ∧ fits request (report (session.serve cache request)))
    (held : ∀ cache ∈ session.caches, holds cache) (requests : List (Nat × Request))
    (served : ∀ request ∈ requests, request.1 < session.caches.size) :
    ∃ reports last, session.run? requests = some (reports, last) ∧
      List.Forall₂ (fun request given => fits request.2 given) requests reports ∧
      last.trees = session.trees ∧ ∀ cache ∈ last.caches, holds cache := by
  induction requests generalizing session with
  | nil => exact ⟨[], session, rfl, .nil, rfl, held⟩
  | cons request rest ih =>
      obtain ⟨number, request⟩ := request
      obtain ⟨given, after, stepped, fit, trees_eq, size_eq, kept⟩ :=
        step?_keeps session holds fits keeps held (served _ List.mem_cons_self) request
      obtain ⟨reports, last, ran, rest_fits, last_trees, last_held⟩ :=
        ih after (by simpa only [serve_congr trees_eq] using keeps) kept
          fun later member => size_eq ▸ served later (List.mem_cons_of_mem _ member)
      exact ⟨given :: reports, last, by simp [run?, stepped, ran], .cons fit rest_fits,
        last_trees.trans trees_eq, last_held⟩

end Keeps

/-- Requests are served only with caches that there are. -/
theorem lt_size_of_run? {last : Session σ} {requests : List (Nat × Request)} {reports : List Report}
    (ran : session.run? requests = some (reports, last)) :
    ∀ request ∈ requests, request.1 < session.caches.size := by
  induction requests generalizing session reports last with
  | nil => simp
  | cons request rest ih =>
      obtain ⟨number, request⟩ := request
      rw [run?] at ran
      obtain ⟨⟨given, after⟩, stepped, went_on⟩ := Option.bind_eq_some_iff.mp ran
      obtain ⟨⟨others, final⟩, ran_rest, -⟩ := Option.bind_eq_some_iff.mp went_on
      have inside : number < session.caches.size := by
        apply Nat.lt_of_not_le
        intro outside
        simp [step?, Array.getElem?_eq_none outside] at stepped
      have size_eq : after.caches.size = session.caches.size := by
        obtain ⟨cache, -, same⟩ := Option.bind_eq_some_iff.mp stepped
        rw [← (Prod.mk.inj (Option.some.inj same)).2]
        exact Array.size_setIfInBounds
      intro other member
      rcases List.mem_cons.mp member with rfl | later
      · exact inside
      · exact size_eq ▸ ih ran_rest other later

theorem forall_mem_map_empty {holds : σ → Prop} {capacities : List Int}
    (each : ∀ capacity ∈ capacities, holds (BoundedCache.empty capacity)) :
    ∀ cache ∈ (capacities.map (BoundedCache.empty : Int → σ)).toArray, holds cache := by
  intro cache member
  obtain ⟨capacity, capacity_member, rfl⟩ := List.mem_map.mp (List.mem_toArray.mp member)
  exact each capacity capacity_member

/-- The cache is one of a session with these trees: it had room and was empty at first, and requests
have been served since then. -/
def Reached (trees : Array LabelledTree) (cache : σ) : Prop :=
  ∃ (capacities : List Int) (requests : List (Nat × Request)) (reports : List Report)
    (last : Session σ), (∀ capacity ∈ capacities, 1 ≤ capacity) ∧
      Session.run? { trees, caches := (capacities.map BoundedCache.empty).toArray } requests =
        some (reports, last) ∧ cache ∈ last.caches

/-- The cache of a session is sound. -/
theorem Reached.sound (lru : view.LeastRecentlyUsed) {trees : Array LabelledTree} {cache : σ}
    (reached : Reached trees cache) :
    Sound view (fun place => trees[place]?.map LabelledTree.tree) cache := by
  obtain ⟨capacities, requests, reports, last, roomy, ran, member⟩ := reached
  let session : Session σ := { trees, caches := (capacities.map BoundedCache.empty).toArray }
  obtain ⟨_, final, ran', -, -, kept⟩ :=
    run?_keeps session (Sound view session.trees?) (fun _ _ => True)
      (fun cache request sound => ⟨(serve_sound lru sound sound request).2, trivial⟩)
      (forall_mem_map_empty fun capacity member => sound_empty lru (roomy capacity member)) requests
      (lt_size_of_run? ran)
  obtain ⟨-, rfl⟩ := Prod.mk.inj (Option.some.inj (ran.symm.trans ran'))
  exact kept cache member

/-- With a cache of a session every inquiry comes out as without a cache. -/
theorem Reached.run_eq_eval (lru : view.LeastRecentlyUsed) {trees : Array LabelledTree} {cache : σ}
    (reached : Reached trees cache) {place : Nat} {labelled : LabelledTree}
    (found : trees[place]? = some labelled) {α : Type} (inquiry : Inquiry α) :
    (run place labelled.tree inquiry cache).1 = inquiry.eval labelled.tree :=
  (run_sound lru (by simp [found]) inquiry (reached.sound lru)).1

/-- What has been asked of resolvers before never shows: requests served in turn with caches that
have room and are empty at first come out, one by one, as with a cache that is empty. -/
theorem run?_outcomes_fresh (lru : view.LeastRecentlyUsed) (trees : Array LabelledTree)
    (capacities : List Int) (roomy : ∀ capacity ∈ capacities, 1 ≤ capacity) (capacity : Int)
    (fresh_roomy : 1 ≤ capacity) (requests : List (Nat × Request))
    (served : ∀ request ∈ requests, request.1 < capacities.length) :
    let session : Session σ := { trees, caches := (capacities.map BoundedCache.empty).toArray }
    ∃ reports last, session.run? requests = some (reports, last) ∧
      reports.map Report.outcome = requests.map fun request =>
        (session.serve (BoundedCache.empty capacity) request.2).1 := by
  intro session
  have fresh : Sound view session.trees? (BoundedCache.empty capacity : σ) :=
    sound_empty lru fresh_roomy
  let reply (request : Request) := (session.serve (BoundedCache.empty capacity) request).1
  obtain ⟨reports, last, ran, fits, -, -⟩ :=
    run?_keeps session (Sound view session.trees?)
      (fun request given => given.outcome = reply request)
      (fun cache request sound => (serve_sound lru sound fresh request).symm)
      (forall_mem_map_empty fun room member => sound_empty lru (roomy room member)) requests
      (fun request member => by simpa [session] using served request member)
  refine ⟨reports, last, ran, ?_⟩
  clear ran served
  induction fits with
  | nil => rfl
  | cons fit _ ih => rw [List.map_cons, List.map_cons, fit, ih]

/-- A file with one class that has a lambda in its only function. -/
def singleClass : LabelledTree :=
  .ofTree
    { records :=
        #[{ kind := .file, name := some "a.kt", parent := none, children := [1] },
          { kind := .klass, name := some "A", parent := some 0, children := [2] },
          { kind := .function, name := some "f", parent := some 1, children := [3] },
          { kind := .lambda, name := none, parent := some 2, children := [] }]
      size_pos := by decide
      parent_root := rfl }

/-- Requests about two trees with the same records, of which one fails. -/
def alternation : List (Nat × Request) :=
  [(0, .about .index ⟨0, .handle 3⟩), (0, .about .index ⟨1, .handle 3⟩),
    (0, .about .index ⟨1, .handle 1⟩), (0, .about .index ⟨0, .handle 3⟩)]

/-- In a cache with one place the two trees drive each other out, and nobody can tell. -/
theorem run?_outcomes_fresh_alternation :
    (∀ capacity ∈ [(1 : Int)], 1 ≤ capacity) ∧ (1 : Int) ≤ 128 ∧
      (∀ request ∈ alternation, request.1 < [(1 : Int)].length) ∧
      ∃ reports last,
        Session.run?
            { trees := #[singleClass, singleClass], caches := #[(.empty 1 : NumberingCache)] }
            alternation = some (reports, last) ∧
          reports.map Report.outcome =
            [.ok (.index 1), .ok (.index 1),
              .error (.naming (.misfit 1 (.notAnonymous { title := "CLASS", name := some "A" }))),
              .ok (.index 1)] :=
  ⟨by decide, by decide, by decide,
    run?_outcomes_fresh LruCache.leastRecentlyUsed #[singleClass, singleClass] [1] (by decide) 128
      (by decide) alternation (by decide)⟩

end Session

end BinaryName
