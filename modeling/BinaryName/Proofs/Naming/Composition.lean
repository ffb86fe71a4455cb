import BinaryName.Proofs.Cache.Transparency
import BinaryName.Proofs.Naming.Rules

/-!
# How names are composed

In any tree without cycles a name is based on the name of an ancestor and adds to it what its rule
says, so from base to base each name leads to a top-level declaration.  The name of a class in a
class is found in one walk along the classes, and yet it comes out as if the class around it had
been named first, faults included.
-/

namespace BinaryName

/-- The families of faults. -/
inductive FaultFamily where
  /-- A handle or a place in a chain leads nowhere. -/
  | index
  /-- A kind has no title. -/
  | title
  /-- A walk has no end. -/
  | cycle
  /-- A cache has no room. -/
  | room
  /-- The node is not of a kind to be named. -/
  | kind
  /-- The surroundings of the node are not those of a program. -/
  | tree
  deriving DecidableEq, Repr

/-- The family of a fault. -/
def Fault.family : Fault → FaultFamily
  | .outOfRange | .oversized | .emptyChain => .index
  | .untitledKind => .title
  | .endless => .cycle
  | .noRoom => .room
  | .misfit _ _ => .kind
  | .malformed _ _ => .tree

namespace ScopeTree

/-- What the resolution of a node adds to that of its base. -/
inductive Extends (tree : ScopeTree) (node base : Handle) (outer : Resolution) : Resolution → Prop
  | nestedClass {name : String} (parent_eq : tree.parent node = .ok (some base))
      (name_eq : tree.name node = .ok (some name)) :
      Extends tree node base outer
        { name := outer.name ++ "$" ++ name, rule := .nestedClass, index := none,
          base := some base }
  | anonymous (index : Nat) :
      Extends tree node base outer
        { name := outer.name ++ "$" ++ toString index, rule := .anonymous, index := some index,
          base := some base }
  | memberFunction (parent_eq : tree.parent node = .ok (some base)) :
      Extends tree node base outer
        { name := outer.name, rule := .memberFunction, index := none, base := some base }

/-- One node has a name that is based on that of the other. -/
def BasedOn (resolved : Handle → Except Fault Resolution) (node base : Handle) : Prop :=
  ∃ resolution, resolved node = .ok resolution ∧ resolution.base = some base

variable {tree : ScopeTree} {node : Handle} {resolution : Resolution}

/-! ## Classes -/

/-- What a chain of classes goes on with is the parent of its first class. -/
theorem parent_of_classChain (loopless : Loopless tree.NamesParent) {parent : Handle}
    {rest : List Handle} (klass : tree.kind node = .ok .klass)
    (chain_eq : tree.classChain node = .ok (node :: parent :: rest)) :
    tree.parent node = .ok (some parent) ∧ tree.kind parent = .ok .klass := by
  cases parent_eq : tree.parent node with
  | error fault =>
      rw [classChain, ancestorsAndSelf, climb, Walk.takeWhileM, hasKind_self klass, parent_eq]
        at chain_eq
      contradiction
  | ok named =>
      cases named with
      | none =>
          rw [classChain_of_root klass parent_eq] at chain_eq
          simp at chain_eq
      | some above =>
          rw [classChain_of_parent loopless klass parent_eq] at chain_eq
          cases above_eq : tree.classChain above with
          | error fault => simp [above_eq, Except.map] at chain_eq
          | ok chain =>
              have follows : chain = parent :: rest := by
                simpa [above_eq, Except.map] using chain_eq
              have above_klass : tree.kind above = .ok .klass := by
                obtain ⟨passes, passes_eq, -⟩ := bind_eq_ok_iff.mp above_eq
                cases passes with
                | true => exact kind_of_hasKind passes_eq
                | false =>
                    rw [classChain_of_other passes_eq, follows] at above_eq
                    simp at above_eq
              obtain ⟨_, starts⟩ := exists_chain_of_klass above_klass above_eq
              obtain ⟨rfl, -⟩ := List.cons.inj (follows.symm.trans starts)
              exact ⟨rfl, above_klass⟩

/-- A class is named on its own, or it extends the name of the class that is its parent. -/
theorem ofClass_cases (loopless : Loopless tree.NamesParent) (klass : tree.kind node = .ok .klass)
    (given : Resolution.ofClass tree node = .ok resolution) :
    resolution.rule = .topLevelClass ∧ resolution.base = none ∨
      ∃ parent outer, tree.parent node = .ok (some parent) ∧
        (tree.resolve parent).eval tree = .ok outer ∧
        tree.Extends node parent outer resolution := by
  obtain ⟨chain, chain_eq, -⟩ := bind_eq_ok_iff.mp given
  obtain ⟨rest, rfl⟩ := exists_chain_of_klass klass chain_eq
  cases rest with
  | nil =>
      obtain ⟨name, rfl⟩ := eq_of_ofClass chain_eq given
      exact Or.inl ⟨rfl, rfl⟩
  | cons parent rest =>
      obtain ⟨parent_eq, parent_klass⟩ := parent_of_classChain loopless klass chain_eq
      obtain ⟨outer, name, outer_eq, name_eq, rfl⟩ :=
        (ofClass_nested_iff loopless klass parent_eq parent_klass).mp given
      rw [← eval_resolve_klass parent_klass] at outer_eq
      exact Or.inr ⟨parent, outer, parent_eq, outer_eq, .nestedClass parent_eq name_eq⟩

/-- A class fails as the class around it does.  Only where the defect is told of the class itself is
the one named in place of the other. -/
theorem ofClass_nested_error (loopless : Loopless tree.NamesParent) {parent : Handle}
    (klass : tree.kind node = .ok .klass) (parent_eq : tree.parent node = .ok (some parent))
    (parent_klass : tree.kind parent = .ok .klass) {fault : Fault}
    (failed : Resolution.ofClass tree parent = .error fault) :
    Resolution.ofClass tree node = .error fault ∨
      ∃ reason, fault = .malformed parent reason ∧
        Resolution.ofClass tree node = .error (.malformed node reason) := by
  have chain_step := classChain_of_parent loopless klass parent_eq
  have first_step := failed
  rw [Resolution.ofClass] at first_step
  rcases bind_eq_error_iff.mp first_step with chain_failed | ⟨chain, chain_eq, -⟩
  · refine Or.inl ?_
    rw [Resolution.ofClass, chain_step, chain_failed]
    rfl
  obtain ⟨rest, rfl⟩ := exists_chain_of_klass parent_klass chain_eq
  -- Both chains end with the same outermost class, from which on the steps are the same.
  obtain ⟨outermost, -, parent_last⟩ := exists_outermost_of_klass parent_klass chain_eq
  have node_last : (node :: parent :: rest).getLast? = some outermost := by
    rw [List.getLast?_cons_cons, parent_last]
  rw [ofClass_of_outermost chain_eq parent_last] at failed
  rw [chain_eq] at chain_step
  rw [ofClass_of_outermost chain_step node_last]
  rcases bind_eq_error_iff.mp failed with holder_failed | ⟨container, holder_eq, failed⟩
  · exact Or.inl (by rw [holder_failed]; rfl)
  rcases bind_eq_error_iff.mp failed with kind_failed | ⟨kind, kind_eq, failed⟩
  · exact Or.inl (by simp [holder_eq, kind_failed, bind, Except.bind])
  cases holds : kind.isContainer with
  | true =>
      rw [holds, if_pos rfl] at failed
      rcases bind_eq_error_iff.mp failed with path_failed | ⟨path, path_eq, failed⟩
      · exact Or.inl (by simp [holder_eq, kind_eq, holds, path_failed, bind, Except.bind])
      rcases bind_eq_error_iff.mp failed with name_failed | ⟨name, name_eq, named⟩
      · exact Or.inl (by
          simp [holder_eq, kind_eq, holds, path_eq, chainName_cons_cons, name_failed, bind,
            Except.bind])
      · contradiction
  | false =>
      rw [holds, if_neg Bool.false_ne_true] at failed
      rcases bind_eq_error_iff.mp failed with caption_failed | ⟨caption, caption_eq, failed⟩
      · exact Or.inl (by simp [holder_eq, kind_eq, holds, caption_failed, bind, Except.bind])
      rw [refuse] at failed
      rcases bind_eq_error_iff.mp failed with mention_failed | ⟨mentioned, mention_eq, failed⟩
      · exact Or.inl (by
          simp [holder_eq, kind_eq, holds, caption_eq, refuse, mention_failed, bind, Except.bind])
      · refine Or.inr ⟨.insideCode caption mentioned, (Except.error.inj failed).symm, ?_⟩
        simp [holder_eq, kind_eq, holds, caption_eq, refuse, mention_eq, bind, Except.bind]
        rfl

/-! ## From base to base -/

/-- A name with a base extends or repeats the name of an ancestor. -/
theorem exists_base (loopless : Loopless tree.NamesParent)
    (resolved : (tree.resolve node).eval tree = .ok resolution) {base : Handle}
    (base_eq : resolution.base = some base) :
    base ∈ (tree.ancestors node).visited ∧
      ∃ outer, (tree.resolve base).eval tree = .ok outer ∧
        tree.Extends node base outer resolution := by
  cases byRule_of_resolve resolved with
  | klass klass given =>
      rcases ofClass_cases loopless klass given with
        ⟨-, none_eq⟩ | ⟨parent, outer, parent_eq, outer_eq, step⟩
      · rw [none_eq] at base_eq
        contradiction
      · obtain rfl : parent = base := by
          cases step <;> exact Option.some.inj base_eq
        exact ⟨parent_mem_ancestors loopless parent_eq, outer, outer_eq, step⟩
  | topLevelFunction => contradiction
  | @anonymous found index outer nearest index_eq outer_eq =>
      obtain rfl : found = base := Option.some.inj base_eq
      exact ⟨(Walk.mem_visited_of_findM? nearest).1, outer, outer_eq, .anonymous index⟩
  | @memberFunction parent outer member parent_eq outer_eq =>
      obtain rfl : parent = base := Option.some.inj base_eq
      exact ⟨parent_mem_ancestors loopless parent_eq, outer, outer_eq, .memberFunction parent_eq⟩

theorem rule_of_base_eq_none (loopless : Loopless tree.NamesParent)
    (resolved : (tree.resolve node).eval tree = .ok resolution) (base_eq : resolution.base = none) :
    resolution.rule = .topLevelClass ∨ resolution.rule = .topLevelFunction := by
  cases byRule_of_resolve resolved with
  | klass klass given =>
      rcases ofClass_cases loopless klass given with ⟨rule_eq, -⟩ | ⟨_, _, -, -, step⟩
      · exact Or.inl rule_eq
      · cases step <;> contradiction
  | topLevelFunction => exact Or.inr rfl
  | anonymous => contradiction
  | memberFunction => contradiction

/-- From base to base a name leads to that of a top-level declaration. -/
theorem exists_topLevel_base (loopless : Loopless tree.NamesParent)
    (resolved : (tree.resolve node).eval tree = .ok resolution) :
    ∃ last final,
      Relation.ReflTransGen (BasedOn fun node => (tree.resolve node).eval tree) node last ∧
        (tree.resolve last).eval tree = .ok final ∧ final.base = none ∧
        (final.rule = .topLevelClass ∨ final.rule = .topLevelFunction) := by
  induction depth : tree.height tree.NamesParent node using Nat.strongRecOn
    generalizing node resolution with
  | ind depth ih =>
      cases base_eq : resolution.base with
      | none =>
          exact ⟨node, resolution, .refl, resolved, base_eq,
            rule_of_base_eq_none loopless resolved base_eq⟩
      | some base =>
          obtain ⟨above, outer, outer_eq, -⟩ := exists_base loopless resolved base_eq
          have lower := height_lt_of_mem_ancestors loopless above
          obtain ⟨last, final, path, final_eq, ends⟩ := ih _ (by omega) outer_eq rfl
          exact ⟨last, final, .head ⟨resolution, resolved, base_eq⟩ path, final_eq, ends⟩

/-- A class in a class fails as the class around it does, or because it has no name. -/
theorem nested_class_fails (loopless : Loopless tree.NamesParent) {parent : Handle}
    (klass : tree.kind node = .ok .klass) (parent_eq : tree.parent node = .ok (some parent))
    (parent_klass : tree.kind parent = .ok .klass) :
    (∀ fault, (tree.resolve parent).eval tree = .error fault →
      ∃ failure, (tree.resolve node).eval tree = .error failure ∧
        failure.family = fault.family ∧ failure.message = fault.message) ∧
      ((∃ outer, (tree.resolve parent).eval tree = .ok outer) →
        ((∃ failure, (tree.resolve node).eval tree = .error failure) ↔
          tree.name node = .ok none)) := by
  rw [eval_resolve_klass klass, eval_resolve_klass parent_klass]
  have nested_iff := fun resolution =>
    @ofClass_nested_iff tree loopless node parent klass parent_eq parent_klass resolution
  constructor
  · intro fault failed
    rcases ofClass_nested_error loopless klass parent_eq parent_klass failed with
      same | ⟨reason, rfl, told⟩
    · exact ⟨fault, same, rfl, rfl⟩
    · exact ⟨_, told, rfl, rfl⟩
  · rintro ⟨outer, outer_eq⟩
    obtain ⟨own, own_eq⟩ : ∃ own, tree.name node = .ok own := by
      obtain ⟨record, record_eq, -⟩ := map_eq_ok_iff.mp klass
      exact ⟨record.name, map_eq_ok_iff.mpr ⟨record, record_eq, rfl⟩⟩
    constructor
    · rintro ⟨failure, failed⟩
      cases own with
      | none => exact own_eq
      | some given =>
          have resolved := (nested_iff _).mpr ⟨outer, given, outer_eq, own_eq, rfl⟩
          rw [failed] at resolved
          contradiction
    · intro nameless
      cases outcome : Resolution.ofClass tree node with
      | error failure => exact ⟨failure, rfl⟩
      | ok resolution =>
          obtain ⟨_, given, -, given_eq, -⟩ := (nested_iff resolution).mp outcome
          rw [nameless] at given_eq
          simp at given_eq

end ScopeTree

/-! ## Sessions -/

namespace Session

open NumberingCache

/-- Names are composed along their bases, whatever has been asked before.  A name with a base adds
to the name of that ancestor what its rule says, the bases of a name lead to a top-level
declaration, and a class in a class fails with the complaint about the class around it or because it
has no name. -/
theorem names_compose {σ : Type} [BoundedCache σ Scope Numbering]
    {view : CacheView σ Scope Numbering} (lru : view.LeastRecentlyUsed)
    {trees : Array LabelledTree} {cache : σ} (reached : Reached trees cache) {place : Nat}
    {labelled : LabelledTree} (found : trees[place]? = some labelled)
    (acyclic : labelled.tree.Acyclic) :
    let tree := labelled.tree
    let resolved := fun node => (run place tree (tree.resolve node) cache).1
    (∀ node resolution base, resolved node = .ok resolution → resolution.base = some base →
      base ∈ (tree.ancestors node).visited ∧
        ∃ outer, resolved base = .ok outer ∧ tree.Extends node base outer resolution) ∧
      (∀ node resolution, resolved node = .ok resolution →
        ∃ last final, Relation.ReflTransGen (ScopeTree.BasedOn resolved) node last ∧
          resolved last = .ok final ∧ final.base = none ∧
          (final.rule = .topLevelClass ∨ final.rule = .topLevelFunction)) ∧
      ∀ node parent, tree.kind node = .ok .klass → tree.parent node = .ok (some parent) →
        tree.kind parent = .ok .klass →
        (∀ fault, resolved parent = .error fault → ∃ failure, resolved node = .error failure ∧
          failure.family = fault.family ∧ failure.message = fault.message) ∧
          ((∃ outer, resolved parent = .ok outer) →
            ((∃ failure, resolved node = .error failure) ↔ tree.name node = .ok none)) := by
  intro tree resolved
  have loopless := acyclic.parents
  have evaluated : resolved = fun node => (tree.resolve node).eval tree :=
    funext fun node => reached.run_eq_eval lru found (tree.resolve node)
  rw [evaluated]
  refine ⟨fun node resolution base resolved_eq base_eq => ?_, fun node resolution resolved_eq => ?_,
    fun node parent klass parent_eq parent_klass => ?_⟩
  · exact ScopeTree.exists_base loopless resolved_eq base_eq
  · exact ScopeTree.exists_topLevel_base loopless resolved_eq
  · exact ScopeTree.nested_class_fails loopless klass parent_eq parent_klass

/-- Classes in a class, one of them without a name, and classes in a function. -/
def nestedClasses : ScopeTree :=
  { records :=
      #[{ kind := .file, name := some "a.kt", parent := none, children := [1, 6] },
        { kind := .klass, name := some "A", parent := some 0, children := [2, 5] },
        { kind := .klass, name := some "B", parent := some 1, children := [3] },
        { kind := .function, name := some "f", parent := some 2, children := [4] },
        { kind := .lambda, name := none, parent := some 3, children := [] },
        { kind := .klass, name := none, parent := some 1, children := [] },
        { kind := .function, name := some "g", parent := some 0, children := [7] },
        { kind := .klass, name := some "L", parent := some 6, children := [8] },
        { kind := .klass, name := some "M", parent := some 7, children := [] }]
    size_pos := by decide
    parent_root := rfl }

/-- The cache after the index of the lambda has been asked for. -/
def nestedClassesCache : NumberingCache :=
  { capacity := 1, entries := [(⟨0, 1⟩, { entries := [(4, 1)] })] }

/-- The lambda extends the name of a member function, the class without a name fails although the
class around it has one, and a class in a class in a function fails as the latter does. -/
theorem names_compose_nestedClasses :
    Reached #[.ofTree nestedClasses] nestedClassesCache ∧ nestedClasses.Acyclic ∧
      (∃ outer, (run 0 nestedClasses (nestedClasses.resolve 3) nestedClassesCache).1 = .ok outer ∧
        nestedClasses.Extends 4 3 outer
          { name := "A$B$1", rule := .anonymous, index := some 1, base := some 3 }) ∧
      (∃ failure, (run 0 nestedClasses (nestedClasses.resolve 5) nestedClassesCache).1 =
        .error failure) ∧
      ∃ failure, (run 0 nestedClasses (nestedClasses.resolve 8) nestedClassesCache).1 =
          .error failure ∧ failure.family = .tree ∧
        failure.message = "CLASS L is declared inside executable code (FUNCTION g)" := by
  have reached : Reached #[.ofTree nestedClasses] nestedClassesCache :=
    ⟨[1], [(0, .about .index ⟨0, .handle 4⟩)], _, _, by decide, rfl, Array.mem_singleton_self _⟩
  have acyclic : nestedClasses.Acyclic :=
    ⟨loopless_of_measure Fin.val (by decide),
      loopless_of_measure (fun place => 9 - place) (by decide)⟩
  obtain ⟨composed, -, fails⟩ := @names_compose _ _ _ LruCache.leastRecentlyUsed _ _ reached 0
    (.ofTree nestedClasses) rfl acyclic
  refine ⟨reached, acyclic, (composed 4 _ 3 rfl rfl).2, ?_, ?_⟩
  · exact ((fails 5 1 rfl rfl rfl).2 ⟨_, rfl⟩).mpr rfl
  · exact (fails 8 7 rfl rfl rfl).1 _ rfl

end Session

end BinaryName
