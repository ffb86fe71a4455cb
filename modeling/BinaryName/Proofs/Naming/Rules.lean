import BinaryName.Proofs.Naming.Evaluation
import BinaryName.Proofs.Tree.Scope

/-!
# The naming rules

What each rule gives in a tree whose parents come before their children and where only lambdas go
without a name.
-/

namespace BinaryName

namespace ScopeTree

variable {tree : ScopeTree} {node parent : Nat}

/-- Only lambdas go without a name. -/
def Named (tree : ScopeTree) : Prop :=
  ∀ node : Nat, node < tree.size → tree.kind (node : Int) ≠ .ok .lambda →
    ∃ name, tree.name (node : Int) = .ok (some name)

theorem properName_eq {node : Handle} {name : String} (name_eq : tree.name node = .ok (some name)) :
    tree.properName node = .ok name := by
  rw [properName, name_eq]
  rfl

theorem properName_eq_ok_iff {node : Handle} {name : String} :
    tree.properName node = .ok name ↔ tree.name node = .ok (some name) := by
  constructor
  · intro proper_eq
    rw [properName] at proper_eq
    obtain ⟨found, found_eq, proper_eq⟩ := bind_eq_ok_iff.mp proper_eq
    cases found with
    | none =>
        obtain ⟨title, -, thrown⟩ := bind_eq_ok_iff.mp proper_eq
        cases thrown
    | some given => rw [found_eq, Except.ok.inj proper_eq]
  · exact properName_eq

theorem exists_caption_of_title {given : Kind} {word : String} {node : Handle}
    (kind_eq : tree.kind node = .ok given) (title_eq : given.title? = some word) :
    ∃ caption, tree.caption node = .ok caption := by
  have titled : tree.title node = .ok word := by
    rw [title, kind_eq]
    simp [bind, Except.bind, title_eq, pure, Except.pure]
  obtain ⟨record, record_eq, -⟩ := map_eq_ok_iff.mp kind_eq
  have name_eq : tree.name node = .ok record.name := map_eq_ok_iff.mpr ⟨record, record_eq, rfl⟩
  rw [caption, titled, name_eq]
  exact ⟨_, rfl⟩

/-! ## Packages and files -/

theorem exists_packageAround (ordered : tree.Ordered) (named : tree.Named)
    (inside : node < tree.size) : ∃ path, tree.packageAround (node : Int) = .ok path := by
  have judges := judges_hasKind ordered .package
  rcases judges.nearestAbove ordered inside with ⟨none_eq, -⟩ | ⟨package, lt, package_eq, line⟩
  · exact ⟨"", by rw [packageAround, none_eq]; rfl⟩
  · have package_inside : package < tree.size := by omega
    have kind_eq : tree.kind (package : Int) = .ok .package :=
      kind_of_head? ordered package_inside (beq_iff_eq.mp (Lineage.passes_of_nearest line))
    obtain ⟨name, name_eq⟩ := named package package_inside (by simp [kind_eq])
    refine ⟨packagePath name, ?_⟩
    rw [packageAround, package_eq]
    simp [bind, Except.bind, properName_eq name_eq, Functor.map, Except.map]

theorem exists_fileClassAround_iff (ordered : tree.Ordered) (named : tree.Named)
    (inside : node < tree.size) :
    (∃ name, tree.fileClassAround (node : Int) = .ok name) ↔
      .file ∈ (tree.lineage node).tail := by
  have judges := judges_hasKind ordered .file
  rw [← List.contains_iff_mem, ← Lineage.isSome_nearest_kind]
  rcases judges.nearestAbove ordered inside with ⟨none_eq, no_line⟩ | ⟨file, lt, file_eq, line⟩
  · rw [fileClassAround, none_eq, no_line]
    simp [bind, Except.bind, not_refuse]
  · have file_inside : file < tree.size := by omega
    have kind_eq : tree.kind (file : Int) = .ok .file :=
      kind_of_head? ordered file_inside (beq_iff_eq.mp (Lineage.passes_of_nearest line))
    obtain ⟨name, name_eq⟩ := named file file_inside (by simp [kind_eq])
    rw [fileClassAround, file_eq, line]
    simp [bind, Except.bind, properName_eq name_eq, Functor.map, Except.map]

/-! ## Classes -/

theorem classChain_of_other {node : Handle} (other : tree.hasKind .klass node = .ok false) :
    tree.classChain node = .ok [] := by
  rw [classChain, ancestorsAndSelf, climb, Walk.takeWhileM, other]
  rfl

theorem classChain_of_root {node : Handle} (klass : tree.kind node = .ok .klass)
    (parent_eq : tree.parent node = .ok none) : tree.classChain node = .ok [node] := by
  rw [classChain, ancestorsAndSelf, climb, Walk.takeWhileM, hasKind_self klass, parent_eq]
  rfl

/-- The chain of a class goes on with that of its parent. -/
theorem classChain_of_parent (loopless : Loopless tree.NamesParent) {node parent : Handle}
    (klass : tree.kind node = .ok .klass) (parent_eq : tree.parent node = .ok (some parent)) :
    tree.classChain node = (tree.classChain parent).map (node :: ·) := by
  rw [classChain, ancestorsAndSelf_eq loopless, Walk.takeWhileM, hasKind_self klass,
    ancestors_of_parent parent_eq, classChain]
  cases (tree.ancestorsAndSelf parent).takeWhileM (tree.hasKind .klass) <;> rfl

/-- The chain of a class starts with it. -/
theorem exists_chain_of_klass {node : Handle} {chain : List Handle}
    (klass : tree.kind node = .ok .klass) (chain_eq : tree.classChain node = .ok chain) :
    ∃ rest, chain = node :: rest := by
  rw [classChain, ancestorsAndSelf, climb, Walk.takeWhileM] at chain_eq
  obtain ⟨passes, passes_eq, chain_eq⟩ := bind_eq_ok_iff.mp chain_eq
  obtain rfl : true = passes := Except.ok.inj ((hasKind_self klass).symm.trans passes_eq)
  obtain ⟨rest, -, chain_eq⟩ := bind_eq_ok_iff.mp chain_eq
  exact ⟨rest, (Except.ok.inj chain_eq).symm⟩

theorem exists_classChain (ordered : tree.Ordered) {node : Nat} (inside : node < tree.size) :
    ∃ chain, tree.classChain (node : Int) = .ok chain := by
  induction node using Nat.strongRecOn with
  | ind node ih =>
      cases klass : (tree.lineage node).head? == some .klass with
      | false =>
          have other := (judges_hasKind ordered .klass).of_verdict inside klass
          exact ⟨[], classChain_of_other other⟩
      | true =>
          have kind_eq := kind_of_head? ordered inside (beq_iff_eq.mp klass)
          rcases ordered node inside with parent_eq | ⟨parent, lt, parent_eq⟩
          · exact ⟨_, classChain_of_root kind_eq parent_eq⟩
          · obtain ⟨chain, chain_eq⟩ := ih parent lt (by omega)
            refine ⟨node :: chain, ?_⟩
            rw [classChain_of_parent ordered.loopless kind_eq parent_eq, chain_eq]
            rfl

/-- The outermost class of a chain that starts with a class can always be taken. -/
theorem exists_outermost_of_klass {node : Handle} {chain : List Handle}
    (klass : tree.kind node = .ok .klass) (chain_eq : tree.classChain node = .ok chain) :
    ∃ outermost ∈ chain, chain.getLast? = some outermost := by
  obtain ⟨rest, rfl⟩ := exists_chain_of_klass klass chain_eq
  exact ⟨_, List.getLast_mem (List.cons_ne_nil node rest), List.getLast?_eq_some_getLast _⟩

/-- From the outermost class of its chain on, the resolution of a class is one chain of steps. -/
theorem ofClass_of_outermost {node outermost : Handle} {chain : List Handle}
    (chain_eq : tree.classChain node = .ok chain) (last : chain.getLast? = some outermost) :
    Resolution.ofClass tree node = (do
      let container ← tree.holder outermost
      if (← tree.kind container).isContainer then
        let path ← tree.packageAround outermost
        let name ← tree.chainName chain
        pure
          { name := path ++ name
            rule := if chain[1]?.isSome then .nestedClass else .topLevelClass
            index := none
            base := chain[1]? }
      else
        let caption ← tree.caption outermost
        tree.refuse node (.insideCode caption) container) := by
  rw [Resolution.ofClass, chain_eq]
  dsimp only [bind, Except.bind]
  rw [last]

/-- A class has a name if the outermost class of its chain is in a file or package. -/
theorem ofClass_eq_ok_iff {node : Handle} {chain : List Handle}
    (chain_eq : tree.classChain node = .ok chain) {resolution : Resolution} :
    Resolution.ofClass tree node = .ok resolution ↔
      ∃ outermost container kind path name, chain.getLast? = some outermost ∧
        tree.holder outermost = .ok container ∧
        tree.kind container = .ok kind ∧ kind.isContainer = true ∧
        tree.packageAround outermost = .ok path ∧ tree.chainName chain = .ok name ∧
        resolution =
          { name := path ++ name
            rule := if chain[1]?.isSome then .nestedClass else .topLevelClass
            index := none
            base := chain[1]? } := by
  cases last : chain.getLast? with
  | none =>
      have no_chain : Resolution.ofClass tree node = .error .emptyChain := by
        rw [Resolution.ofClass, chain_eq]
        dsimp only [bind, Except.bind]
        rw [last]
        rfl
      simp [no_chain]
  | some outermost =>
      rw [ofClass_of_outermost chain_eq last]
      simp only [bind_eq_ok_iff, Option.some.injEq, exists_and_left, exists_eq_left']
      constructor
      · rintro ⟨container, holder_eq, kind, kind_eq, given⟩
        cases holds : kind.isContainer with
        | false =>
            rw [holds, if_neg Bool.false_ne_true, bind_eq_ok_iff] at given
            obtain ⟨_, _, refused⟩ := given
            exact absurd refused not_refuse
        | true =>
            rw [holds, if_pos rfl, bind_eq_ok_iff] at given
            obtain ⟨path, path_eq, given⟩ := given
            obtain ⟨name, name_eq, given⟩ := bind_eq_ok_iff.mp given
            exact ⟨container, holder_eq, kind, kind_eq, holds, path, path_eq, name, name_eq,
              (Except.ok.inj given).symm⟩
      · rintro ⟨container, holder_eq, kind, kind_eq, holds, path, path_eq, name, name_eq, rfl⟩
        refine ⟨container, holder_eq, kind, kind_eq, ?_⟩
        rw [holds, if_pos rfl, path_eq, name_eq]
        rfl

/-- The rule of a class with a name depends on its chain alone. -/
theorem eq_of_ofClass {node : Handle} {chain : List Handle}
    (chain_eq : tree.classChain node = .ok chain) {resolution : Resolution}
    (given : Resolution.ofClass tree node = .ok resolution) :
    ∃ name, resolution =
      { name
        rule := if chain[1]?.isSome then .nestedClass else .topLevelClass
        index := none
        base := chain[1]? } := by
  obtain ⟨_, _, _, path, name, -, -, -, -, -, -, rfl⟩ := (ofClass_eq_ok_iff chain_eq).mp given
  exact ⟨path ++ name, rfl⟩

/-- A class that is not in a class has a name in a file or package only. -/
theorem ofClass_outermost_iff (loopless : Loopless tree.NamesParent) {node parent : Handle}
    (klass : tree.kind node = .ok .klass) (parent_eq : tree.parent node = .ok (some parent))
    {kind : Kind} (kind_eq : tree.kind parent = .ok kind) (other : kind ≠ .klass)
    {path name : String} (path_eq : tree.packageAround node = .ok path)
    (name_eq : tree.name node = .ok (some name)) {resolution : Resolution} :
    Resolution.ofClass tree node = .ok resolution ↔
      kind.isContainer = true ∧ resolution =
        { name := path ++ name, rule := .topLevelClass, index := none, base := none } := by
  have not_klass : tree.hasKind .klass parent = .ok false := by
    rw [hasKind_of_kind kind_eq, beq_false_of_ne other]
  have chain_eq : tree.classChain node = .ok [node] := by
    rw [classChain_of_parent loopless klass parent_eq, classChain_of_other not_klass]
    rfl
  rw [ofClass_eq_ok_iff chain_eq]
  simp [Resolution.holder_eq parent_eq, kind_eq, path_eq, chainName, properName_eq name_eq]

theorem chainName_cons_cons (inner outer : Handle) (rest : List Handle) :
    tree.chainName (inner :: outer :: rest) = (do
      let path ← tree.chainName (outer :: rest)
      let name ← tree.properName inner
      pure (path ++ "$" ++ name)) := rfl

/-- A class in a class is named by the class around it and itself. -/
theorem ofClass_nested_iff (loopless : Loopless tree.NamesParent) {node parent : Handle}
    (klass : tree.kind node = .ok .klass) (parent_eq : tree.parent node = .ok (some parent))
    (parent_klass : tree.kind parent = .ok .klass) {resolution : Resolution} :
    Resolution.ofClass tree node = .ok resolution ↔
      ∃ outer name, Resolution.ofClass tree parent = .ok outer ∧ tree.name node = .ok (some name) ∧
        resolution = { name := outer.name ++ "$" ++ name, rule := .nestedClass, index := none,
                       base := some parent } := by
  have chain_step := classChain_of_parent loopless klass parent_eq
  cases chain_eq : tree.classChain parent with
  | error fault =>
      rw [chain_eq] at chain_step
      rw [Resolution.ofClass, Resolution.ofClass, chain_step, chain_eq]
      simp [Except.map, bind, Except.bind]
  | ok chain =>
      obtain ⟨rest, rfl⟩ := exists_chain_of_klass parent_klass chain_eq
      rw [chain_eq] at chain_step
      rw [ofClass_eq_ok_iff chain_step]
      simp only [ofClass_eq_ok_iff chain_eq, List.getLast?_cons_cons, chainName_cons_cons,
        bind_eq_ok_iff, properName_eq_ok_iff, pure, Except.pure, Except.ok.injEq]
      constructor
      · rintro ⟨outermost, container, kind, path, _, last, holder_eq, kind_eq, holds, path_eq,
          ⟨outer, outer_eq, name, name_eq, rfl⟩, rfl⟩
        refine ⟨_, name, ⟨outermost, container, kind, path, outer, last, holder_eq, kind_eq, holds,
          path_eq, outer_eq, rfl⟩, name_eq, ?_⟩
        simp [String.append_assoc]
      · rintro ⟨_, name, ⟨outermost, container, kind, path, outer, last, holder_eq, kind_eq, holds,
          path_eq, outer_eq, rfl⟩, name_eq, rfl⟩
        refine ⟨outermost, container, kind, path, _, last, holder_eq, kind_eq, holds, path_eq,
          ⟨outer, outer_eq, name, name_eq, rfl⟩, ?_⟩
        simp [String.append_assoc]

/-! ## Functions and lambdas -/

theorem eval_resolve_klass {node : Handle} (kind_eq : tree.kind node = .ok .klass) :
    (tree.resolve node).eval tree = Resolution.ofClass tree node := by
  rw [resolve, Resolution.within, Resolution.ofNode_klass kind_eq, Inquiry.eval_lift]

/-- The resolution of a function of a file or package. -/
theorem eval_resolve_topLevel (ordered : tree.Ordered) (inside : node < tree.size)
    (top : Role.topLevelFunction.fits (tree.lineage node) = true) {resolution : Resolution} :
    (tree.resolve (node : Int)).eval tree = .ok resolution ↔
      ∃ path name, tree.packageAround (node : Int) = .ok path ∧
        tree.fileClassAround (node : Int) = .ok name ∧ resolution =
          { name := path ++ name, rule := .topLevelFunction, index := none, base := none } := by
  have kind_eq := kind_of_head? ordered inside (Role.head?_of_fits top)
  have top_test := (judges_plays ordered .topLevelFunction).of_verdict inside top
  obtain ⟨parent, -, parent_eq, -⟩ := exists_parent_of_fits ordered inside top
  rw [resolve_eq, Resolution.ofNode_function kind_eq,
    Resolution.ofFunction_of_topLevel top_test, Resolution.holder_eq parent_eq]
  simp only [Inquiry.eval_bind, Inquiry.eval_lift, Inquiry.eval_pure, bind_eq_ok_iff,
    Except.ok.injEq, exists_eq_left', exists_and_left, @eq_comm _ resolution]

theorem eval_ofAnonymous {around : Handle → Inquiry Resolution} {node : Handle}
    {resolution : Resolution} :
    (Resolution.ofAnonymous tree around node).eval tree = .ok resolution ↔
      ∃ base index outer, tree.nearestAbove tree.isBase node = .ok (some base) ∧
        (tree.indexOf node).eval tree = .ok index ∧ (around base).eval tree = .ok outer ∧
        resolution =
          { name := outer.name ++ "$" ++ toString index, rule := .anonymous, index := some index,
            base := some base } := by
  rw [Resolution.ofAnonymous, Inquiry.eval_bind, Inquiry.eval_lift, bind_eq_ok_iff]
  constructor
  · rintro ⟨found, nearest, given⟩
    cases found with
    | none =>
        simp only [Inquiry.eval_lift] at given
        exact absurd given not_refuse
    | some base =>
        simp only [Inquiry.eval_bind, bind_eq_ok_iff, Inquiry.eval_pure, Except.ok.injEq] at given
        obtain ⟨index, index_eq, outer, outer_eq, rfl⟩ := given
        exact ⟨base, index, outer, nearest, index_eq, outer_eq, rfl⟩
  · rintro ⟨base, index, outer, nearest, index_eq, outer_eq, rfl⟩
    refine ⟨some base, nearest, ?_⟩
    simp only [Inquiry.eval_bind, Inquiry.eval_pure, bind_eq_ok_iff]
    exact ⟨index, index_eq, outer, outer_eq, rfl⟩

/-- The ways in which a node gets a name, with what each of them takes from around the node. -/
inductive ByRule (tree : ScopeTree) (node : Handle) : Resolution → Prop
  | klass {resolution : Resolution} (kind_eq : tree.kind node = .ok .klass)
      (given : Resolution.ofClass tree node = .ok resolution) : ByRule tree node resolution
  | topLevelFunction {path name : String} (top : tree.plays .topLevelFunction node = .ok true)
      (path_eq : tree.packageAround node = .ok path)
      (name_eq : tree.fileClassAround node = .ok name) :
      ByRule tree node
        { name := path ++ name, rule := .topLevelFunction, index := none, base := none }
  | anonymous {base : Handle} {index : Nat} {outer : Resolution}
      (nearest : tree.nearestAbove tree.isBase node = .ok (some base))
      (index_eq : (tree.indexOf node).eval tree = .ok index)
      (outer_eq : (tree.resolve base).eval tree = .ok outer) :
      ByRule tree node
        { name := outer.name ++ "$" ++ toString index, rule := .anonymous, index := some index,
          base := some base }
  | memberFunction {parent : Handle} {outer : Resolution}
      (member : tree.plays .memberFunction node = .ok true)
      (parent_eq : tree.parent node = .ok (some parent))
      (outer_eq : (tree.resolve parent).eval tree = .ok outer) :
      ByRule tree node
        { name := outer.name, rule := .memberFunction, index := none, base := some parent }

theorem byRule_of_ofAnonymous {node : Handle} {resolution : Resolution}
    (given : (Resolution.ofAnonymous tree tree.resolve node).eval tree = .ok resolution) :
    tree.ByRule node resolution := by
  obtain ⟨base, index, outer, nearest, index_eq, outer_eq, rfl⟩ := eval_ofAnonymous.mp given
  exact .anonymous nearest index_eq outer_eq

theorem byRule_of_ofFunction {node : Handle} {resolution : Resolution}
    (given : (Resolution.ofFunction tree tree.resolve node).eval tree = .ok resolution) :
    tree.ByRule node resolution := by
  rw [Resolution.ofFunction, Inquiry.eval_bind, Inquiry.eval_lift] at given
  obtain ⟨parent, holder_eq, given⟩ := bind_eq_ok_iff.mp given
  rw [Inquiry.eval_bind, Inquiry.eval_lift] at given
  obtain ⟨top, top_eq, given⟩ := bind_eq_ok_iff.mp given
  cases top with
  | true =>
      rw [if_pos rfl, Inquiry.eval_bind, Inquiry.eval_lift] at given
      obtain ⟨path, path_eq, given⟩ := bind_eq_ok_iff.mp given
      rw [Inquiry.eval_bind, Inquiry.eval_lift] at given
      obtain ⟨name, name_eq, given⟩ := bind_eq_ok_iff.mp given
      obtain rfl := Except.ok.inj given
      exact .topLevelFunction top_eq path_eq name_eq
  | false =>
      rw [if_neg Bool.false_ne_true, Inquiry.eval_bind, Inquiry.eval_lift] at given
      obtain ⟨inner, -, given⟩ := bind_eq_ok_iff.mp given
      cases inner with
      | true => exact byRule_of_ofAnonymous (by simpa using given)
      | false =>
          rw [if_neg Bool.false_ne_true, Inquiry.eval_bind, Inquiry.eval_lift] at given
          obtain ⟨member, member_eq, given⟩ := bind_eq_ok_iff.mp given
          cases member with
          | true =>
              rw [if_pos rfl, Inquiry.eval_bind] at given
              obtain ⟨outer, outer_eq, given⟩ := bind_eq_ok_iff.mp given
              obtain rfl := Except.ok.inj given
              exact .memberFunction member_eq (parent_of_holder holder_eq) outer_eq
          | false =>
              rw [if_neg Bool.false_ne_true, Inquiry.eval_bind, Inquiry.eval_lift] at given
              obtain ⟨caption, -, given⟩ := bind_eq_ok_iff.mp given
              rw [Inquiry.eval_lift] at given
              exact absurd given not_refuse

theorem byRule_of_resolve {node : Handle} {resolution : Resolution}
    (resolved : (tree.resolve node).eval tree = .ok resolution) : tree.ByRule node resolution := by
  rw [resolve_eq] at resolved
  cases kind_eq : tree.kind node with
  | error fault =>
      rw [Resolution.ofNode, kind_eq] at resolved
      contradiction
  | ok kind =>
      cases kind with
      | klass =>
          rw [Resolution.ofNode_klass kind_eq, Inquiry.eval_lift] at resolved
          exact .klass kind_eq resolved
      | function =>
          rw [Resolution.ofNode_function kind_eq] at resolved
          exact byRule_of_ofFunction resolved
      | lambda =>
          rw [Resolution.ofNode_lambda kind_eq] at resolved
          exact byRule_of_ofAnonymous resolved
      | file | package =>
          rw [Resolution.ofNode, kind_eq] at resolved
          simp [Resolution.liftM_ok, Kind.spelled, Kind.ofTag, Kind.tag, bind_eq_ok_iff] at resolved
      | unknown tag =>
          rw [Resolution.ofNode_plain kind_eq] at resolved
          contradiction

/-- The resolution of a lambda, or of a local function that is in no file or package itself. -/
theorem eval_resolve_anonymous (ordered : tree.Ordered) (inside : node < tree.size)
    (anonymous : Lineage.isAnonymous (tree.lineage node) = true)
    (below : Role.topLevelFunction.fits (tree.lineage node) = false) {resolution : Resolution} :
    (tree.resolve (node : Int)).eval tree = .ok resolution ↔
      ∃ base index outer, tree.nearestAbove tree.isBase (node : Int) = .ok (some base) ∧
        (tree.indexOf node).eval tree = .ok index ∧
        (tree.resolve base).eval tree = .ok outer ∧ resolution =
          { name := outer.name ++ "$" ++ toString index, rule := .anonymous, index := some index,
            base := some base } := by
  rw [← eval_ofAnonymous, resolve_eq]
  rw [Lineage.isAnonymous, Bool.or_eq_true, beq_iff_eq] at anonymous
  rcases anonymous with lambda | function
  · rw [Resolution.ofNode_lambda (kind_of_head? ordered inside lambda)]
  · have kind_eq := kind_of_head? ordered inside (Role.head?_of_fits function)
    obtain ⟨parent, -, parent_eq, -⟩ := exists_parent_of_fits ordered inside function
    have top_test := (judges_plays ordered .topLevelFunction).of_verdict inside below
    have local_test := (judges_plays ordered .localFunction).of_verdict inside function
    rw [Resolution.ofNode_function kind_eq, Resolution.ofFunction, Resolution.holder_eq parent_eq,
      top_test, local_test]
    rfl

/-- The resolution of a function of a class that is not inside a function. -/
theorem eval_resolve_member (ordered : tree.Ordered) (inside : node < tree.size)
    (member : Role.memberFunction.fits (tree.lineage node) = true)
    (outside : Role.localFunction.fits (tree.lineage node) = false)
    (parent_eq : tree.parent (node : Int) = .ok (some (parent : Int))) {resolution : Resolution} :
    (tree.resolve (node : Int)).eval tree = .ok resolution ↔
      ∃ outer, (tree.resolve (parent : Int)).eval tree = .ok outer ∧ resolution =
        { name := outer.name, rule := .memberFunction, index := none,
          base := some (parent : Int) } := by
  have kind_eq := kind_of_head? ordered inside (Role.head?_of_fits member)
  have below : Role.topLevelFunction.fits (tree.lineage node) = false := by
    rcases line : tree.lineage node with _ | ⟨kind, _ | ⟨above, rest⟩⟩ <;>
      simp [line, Role.fits] at member ⊢
    simp [member.2, Kind.isContainer]
  have top_test := (judges_plays ordered .topLevelFunction).of_verdict inside below
  have local_test := (judges_plays ordered .localFunction).of_verdict inside outside
  have member_test := (judges_plays ordered .memberFunction).of_verdict inside member
  rw [resolve_eq, Resolution.ofNode_function kind_eq, Resolution.ofFunction,
    Resolution.holder_eq parent_eq, top_test, local_test, member_test]
  simp only [Resolution.liftM_ok, pure_bind, Bool.false_eq_true, if_false, if_true,
    Inquiry.eval_bind, Inquiry.eval_pure, bind_eq_ok_iff, Except.ok.injEq, @eq_comm _ resolution]

/-- A node of another kind, or a function without a role, has no name. -/
theorem eval_resolve_of_misfit (ordered : tree.Ordered) (inside : node < tree.size)
    (not_klass : (tree.lineage node).head? ≠ some .klass)
    (not_top : Role.topLevelFunction.fits (tree.lineage node) = false)
    (not_anonymous : Lineage.isAnonymous (tree.lineage node) = false)
    (not_member : Role.memberFunction.fits (tree.lineage node) = false) (resolution : Resolution) :
    (tree.resolve (node : Int)).eval tree ≠ .ok resolution := by
  have kind_eq := kind_natCast tree inside
  rw [Lineage.isAnonymous, Bool.or_eq_false_iff, head?_lineage ordered inside] at not_anonymous
  rw [head?_lineage ordered inside] at not_klass
  rw [resolve_eq]
  cases kind : tree.records[node].kind with
  | klass => simp [kind] at not_klass
  | lambda => simp [kind] at not_anonymous
  | file | package =>
      rw [kind] at kind_eq
      rw [Resolution.ofNode, kind_eq]
      simp [Resolution.liftM_ok, Kind.spelled, Kind.ofTag, Kind.tag, bind_eq_ok_iff]
  | unknown tag =>
      rw [kind] at kind_eq
      rw [Resolution.ofNode_plain kind_eq]
      simp
  | function =>
      rw [kind] at kind_eq
      have top_test := (judges_plays ordered .topLevelFunction).of_verdict inside not_top
      have local_test := (judges_plays ordered .localFunction).of_verdict inside not_anonymous.2
      have member_test := (judges_plays ordered .memberFunction).of_verdict inside not_member
      rw [Resolution.ofNode_function kind_eq, Resolution.ofFunction, top_test, local_test,
        member_test]
      simp [Resolution.liftM_ok, bind_eq_ok_iff, not_refuse]

/-! ## Scopes and indices -/

theorem eval_indexOf {node : Handle} (anonymous : tree.isAnonymous node = .ok true) :
    (tree.indexOf node).eval tree = (do
      let numbering ← tree.numbering (← tree.scopeOf node)
      match numbering.get? node with
      | some index => pure index
      | none => tree.refuse node .unreachable node) := by
  rw [indexOf, anonymous]
  simp only [Resolution.liftM_ok, pure_bind, if_true, Inquiry.eval_bind, Inquiry.eval_lift,
    Inquiry.eval_numbering]
  congr 1
  funext root
  congr 1
  funext numbering
  cases numbering.get? node with
  | none => exact Inquiry.eval_lift tree _
  | some index => rfl

/-- Only an anonymous class has an index. -/
theorem isAnonymous_of_eval_indexOf {node : Handle} {index : Nat}
    (index_eq : (tree.indexOf node).eval tree = .ok index) : tree.isAnonymous node = .ok true := by
  rw [indexOf, Inquiry.eval_bind, Inquiry.eval_lift] at index_eq
  obtain ⟨passes, passes_eq, index_eq⟩ := bind_eq_ok_iff.mp index_eq
  cases passes with
  | true => exact passes_eq
  | false =>
      rw [if_neg Bool.false_ne_true, Inquiry.eval_bind] at index_eq
      obtain ⟨caption, -, failed⟩ := bind_eq_ok_iff.mp index_eq
      contradiction

/-- The scope of a node is settled by the nearest top-level declaration around it. -/
theorem scopeOf_eq_ok_iff_nearest {node root : Handle} :
    tree.scopeOf node = .ok root ↔
      ∃ top, tree.nearestAbove tree.isTopLevel node = .ok (some top) ∧
        (tree.hasKind .klass top = .ok true ∧ top = root ∨ tree.hasKind .klass top = .ok false ∧
          tree.nearestAbove (tree.hasKind .file) top = .ok (some root)) := by
  rw [scopeOf]
  cases nearest : tree.nearestAbove tree.isTopLevel node with
  | error fault => simp [bind, Except.bind]
  | ok found =>
      cases found with
      | none => simp [bind, Except.bind, not_refuse]
      | some top =>
          cases klass_eq : tree.hasKind .klass top with
          | error fault => simp [bind, Except.bind, klass_eq]
          | ok klass =>
              cases klass with
              | true => simp [bind, Except.bind, klass_eq, pure, Except.pure]
              | false =>
                  cases file_eq : tree.nearestAbove (tree.hasKind .file) top with
                  | error fault => simp [bind, Except.bind, klass_eq, file_eq]
                  | ok file =>
                      cases file <;>
                        simp [bind, Except.bind, klass_eq, file_eq, pure, Except.pure, not_refuse]

/-- The root of the scope below a top-level declaration is a class itself, or the file around a
function. -/
def Scopes (tree : ScopeTree) (top : Nat) (root : Handle) : Prop :=
  Role.topLevelClass.fits (tree.lineage top) = true ∧ root = top ∨
    Role.topLevelFunction.fits (tree.lineage top) = true ∧
      tree.nearestAbove (tree.hasKind .file) (top : Int) = .ok (some root)

theorem scopes_iff (ordered : tree.Ordered) {top : Nat} (inside : top < tree.size)
    (is_top : Lineage.isTopLevel (tree.lineage top) = true) {root : Handle} :
    tree.Scopes top root ↔
      tree.hasKind .klass (top : Int) = .ok true ∧ (top : Int) = root ∨
        tree.hasKind .klass (top : Int) = .ok false ∧
          tree.nearestAbove (tree.hasKind .file) (top : Int) = .ok (some root) := by
  rw [Lineage.isTopLevel, Bool.or_eq_true] at is_top
  rw [Scopes, hasKind_eq ordered inside]
  rcases is_top with klass | function
  · have not_function : Role.topLevelFunction.fits (tree.lineage top) = false :=
      Role.not_fits_of_fits klass (by decide)
    simp [klass, not_function, Role.head?_of_fits klass, Role.kind, eq_comm]
  · have not_klass : Role.topLevelClass.fits (tree.lineage top) = false :=
      Role.not_fits_of_fits function (by decide)
    simp [function, not_klass, Role.head?_of_fits function, Role.kind]

theorem scopeOf_eq_ok_iff (ordered : tree.Ordered) (inside : node < tree.size) {root : Handle} :
    tree.scopeOf (node : Int) = .ok root ↔
      ∃ top : Nat, tree.nearestAbove tree.isTopLevel (node : Int) = .ok (some (top : Int)) ∧
        tree.Scopes top root := by
  have judges := judges_isTopLevel ordered
  rw [scopeOf_eq_ok_iff_nearest]
  constructor
  · rintro ⟨top, top_eq, given⟩
    obtain ⟨place, rfl, place_lt, is_top, -⟩ := judges.of_nearestAbove ordered inside top_eq
    exact ⟨place, top_eq, (scopes_iff ordered (by omega) is_top).mpr given⟩
  · rintro ⟨top, top_eq, scopes⟩
    obtain ⟨top_lt, is_top, -⟩ := judges.of_nearestAbove_natCast ordered inside top_eq
    exact ⟨top, top_eq, (scopes_iff ordered (by omega) is_top).mp scopes⟩

end ScopeTree

end BinaryName
