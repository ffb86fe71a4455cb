import BinaryName.Proofs.Naming.Rules
import BinaryName.Proofs.Tree.Expansion

/-!
# Naming comes to an end

In a tree without cycles no walk upwards or downwards meets its bound.  Every step of every rule
keeps to this, so no naming and no numbering fails for having no end.
-/

namespace BinaryName

/-- The computation does not fail for having no end. -/
def Ends {α : Type} (outcome : Except Fault α) : Prop := outcome ≠ .error .endless

theorem ends_ok {α : Type} (value : α) : Ends (.ok value) := by simp [Ends]

theorem Ends.bind {α β : Type} {first : Except Fault α} {next : α → Except Fault β}
    (ends : Ends first)
    (later : ∀ value, first = .ok value → Ends (next value)) : Ends (first >>= next) := by
  intro failed
  rcases bind_eq_error_iff.mp failed with here | ⟨value, first_eq, there⟩
  · exact ends here
  · exact later value first_eq there

theorem Ends.map {α β : Type} {outcome : Except Fault α} (ends : Ends outcome) (change : α → β) :
    Ends (change <$> outcome) := by
  rw [← bind_pure_comp]
  exact ends.bind fun value _ => ends_ok (change value)

theorem Ends.eval_bind {α β : Type} {tree : ScopeTree} {first : Except Fault α}
    {next : α → Inquiry β} (ends : Ends first)
    (later : ∀ value, first = .ok value → Ends ((next value).eval tree)) :
    Ends (((liftM first : Inquiry α) >>= next).eval tree) := by
  rw [Inquiry.eval_bind, Inquiry.eval_lift]
  exact ends.bind later

/-- The walk does not break for having no end. -/
def Walk.Ends (walk : Walk) : Prop := walk.fault? ≠ some .endless

/-- The test does not fail for having no end. -/
def Test.Ends (test : Test) : Prop := ∀ node, BinaryName.Ends (test node)

theorem Test.Ends.either {first second : Test} (ends : first.Ends) (also : second.Ends) :
    (Test.either first second).Ends := by
  intro node
  refine (ends node).bind fun passes _ => ?_
  cases passes with
  | true => exact ends_ok true
  | false => exact also node

theorem Walk.Ends.findM? {walk : Walk} (walkEnds : walk.Ends) {test : Test} (ends : test.Ends) :
    BinaryName.Ends (walk.findM? test) := by
  induction walk with
  | stop => exact ends_ok none
  | broken fault => simpa [Walk.Ends, Walk.fault?, BinaryName.Ends, Walk.findM?] using walkEnds
  | visit node rest ih =>
      refine (ends node).bind fun passes _ => ?_
      cases passes with
      | true => exact ends_ok (some node)
      | false => exact ih () walkEnds

theorem Walk.Ends.takeWhileM {walk : Walk} (walkEnds : walk.Ends) {test : Test} (ends : test.Ends) :
    BinaryName.Ends (walk.takeWhileM test) := by
  induction walk with
  | stop => exact ends_ok []
  | broken fault => simpa [Walk.Ends, Walk.fault?, BinaryName.Ends, Walk.takeWhileM] using walkEnds
  | visit node rest ih =>
      refine (ends node).bind fun passes _ => ?_
      cases passes with
      | true => exact (ih () walkEnds).bind fun others _ => ends_ok (node :: others)
      | false => exact ends_ok []

theorem Walk.Expands.ends {successors : Handle → Except Fault (List Handle)} {walk : Walk}
    (expands : walk.Expands successors) (ends : ∀ node, BinaryName.Ends (successors node)) :
    walk.Ends := by
  induction expands with
  | stop => simp [Walk.Ends, Walk.fault?]
  | @visit node rest goesOn breaks ih =>
      rw [Walk.Ends, Walk.fault?]
      cases next_eq : successors node with
      | ok next => exact ih next next_eq
      | error fault =>
          rw [breaks fault next_eq, Walk.fault?]
          intro endless
          rw [Option.some.inj endless] at next_eq
          exact ends node next_eq

namespace ScopeTree

variable {tree : ScopeTree}

/-! ## Records and messages -/

theorem ends_record (tree : ScopeTree) (node : Handle) : Ends (tree.record node) := by
  rw [record]
  cases tree.position? node with
  | some position => exact ends_ok _
  | none =>
      dsimp only
      rw [Ends, misread]
      split <;> simp

theorem ends_kind (tree : ScopeTree) (node : Handle) : Ends (tree.kind node) :=
  (tree.ends_record node).map Record.kind

theorem ends_name (tree : ScopeTree) (node : Handle) : Ends (tree.name node) :=
  (tree.ends_record node).map Record.name

theorem ends_parent (tree : ScopeTree) (node : Handle) : Ends (tree.parent node) :=
  (tree.ends_record node).map Record.parent

theorem ends_children (tree : ScopeTree) (node : Handle) : Ends (tree.children node) :=
  (tree.ends_record node).map Record.children

theorem ends_hasKind (tree : ScopeTree) (wanted : Kind) : Test.Ends (tree.hasKind wanted) :=
  fun node => (tree.ends_kind node).map (· == wanted)

theorem ends_title (tree : ScopeTree) (node : Handle) : Ends (tree.title node) := by
  refine (tree.ends_kind node).bind fun kind _ => ?_
  cases kind.title? with
  | some title => exact ends_ok title
  | none => simp [Ends, throw, throwThe, MonadExceptOf.throw]

theorem ends_caption (tree : ScopeTree) (node : Handle) : Ends (tree.caption node) :=
  (tree.ends_title node).bind fun _ _ => (tree.ends_name node).bind fun _ _ => ends_ok _

theorem ends_refuse {α : Type} (tree : ScopeTree) (node : Handle) (defect : Caption → Defect)
    (mentioned : Handle) : Ends (tree.refuse node defect mentioned : Except Fault α) := by
  refine (tree.ends_caption mentioned).bind fun caption _ => ?_
  simp [Ends, throw, throwThe, MonadExceptOf.throw]

/-! ## Roles and searches -/

theorem ends_isPlaced (tree : ScopeTree) (wanted : Kind) (below : Kind → Bool) :
    (tree.isPlaced wanted below).Ends := by
  intro node
  refine (tree.ends_hasKind wanted node).bind fun fits _ => ?_
  cases fits with
  | false => exact ends_ok false
  | true =>
      have ends_parentKind : Ends (tree.parentKind node) := by
        refine (tree.ends_parent node).bind fun named _ => ?_
        cases named with
        | none => exact ends_ok none
        | some parent => exact (tree.ends_kind parent).map some
      exact ends_parentKind.bind fun given _ => ends_ok _

theorem ends_ancestorsAndSelf (loopless : Loopless tree.NamesParent) (node : Handle) :
    (tree.ancestorsAndSelf node).Ends := by
  induction depth : tree.height tree.NamesParent node using Nat.strongRecOn generalizing node with
  | ind depth ih =>
      rw [ancestorsAndSelf_eq loopless, Walk.Ends, Walk.fault?]
      cases parent_eq : tree.parent node with
      | error fault =>
          have ends := tree.ends_parent node
          rw [parent_eq] at ends
          rw [ancestors, parent_eq]
          simpa [Ends, Walk.fault?] using ends
      | ok named =>
          cases named with
          | none => simp [ancestors_of_root parent_eq, Walk.fault?]
          | some parent =>
              have lower := height_parent_lt loopless parent_eq
              rw [ancestors_of_parent parent_eq]
              exact ih _ (by omega) parent rfl

theorem ends_nearestAbove (loopless : Loopless tree.NamesParent) {test : Test} (ends : test.Ends)
    (node : Handle) : Ends (tree.nearestAbove test node) := by
  have both := ends_ancestorsAndSelf loopless node
  rw [ancestorsAndSelf_eq loopless] at both
  have above : (tree.ancestors node).Ends := both
  exact above.findM? ends

theorem ends_plays (loopless : Loopless tree.NamesParent) (role : Role) :
    (tree.plays role).Ends := by
  cases role with
  | topLevelClass => exact tree.ends_isPlaced .klass Kind.isContainer
  | topLevelFunction => exact tree.ends_isPlaced .function Kind.isContainer
  | memberFunction => exact tree.ends_isPlaced .function (· == .klass)
  | localFunction =>
      intro node
      refine (tree.ends_hasKind .function node).bind fun fits _ => ?_
      cases fits with
      | false => exact ends_ok false
      | true => exact (ends_nearestAbove loopless (tree.ends_hasKind .function) node).map _

theorem ends_isTopLevel (loopless : Loopless tree.NamesParent) : tree.isTopLevel.Ends :=
  (ends_plays loopless .topLevelClass).either (ends_plays loopless .topLevelFunction)

theorem ends_isAnonymous (loopless : Loopless tree.NamesParent) : tree.isAnonymous.Ends :=
  (tree.ends_hasKind .lambda).either (ends_plays loopless .localFunction)

theorem ends_isBase (loopless : Loopless tree.NamesParent) : tree.isBase.Ends :=
  (tree.ends_hasKind .klass).either
    ((ends_plays loopless .topLevelFunction).either (ends_plays loopless .memberFunction))

/-! ## Numberings -/

theorem ends_unskipped {skip : Test} (ends : skip.Ends) (nodes : List Handle) :
    Ends (unskipped skip nodes) := by
  induction nodes with
  | nil => exact ends_ok []
  | cons node rest ih =>
      exact (ends node).bind fun skipped _ => ih.bind fun kept _ => ends_ok _

theorem ends_preorder (loopless : Loopless tree.ListsChild) {skip : Test} (ends : skip.Ends)
    (start : Handle) : (tree.preorder skip start).Ends :=
  (preorder_expands loopless skip start).ends fun node =>
    (tree.ends_children node).bind fun listed _ => ends_unskipped ends listed

theorem ends_countAlong (loopless : Loopless tree.NamesParent) {walk : Walk} (walkEnds : walk.Ends)
    (numbering : Numbering) : Ends (tree.countAlong numbering walk) := by
  induction walk generalizing numbering with
  | stop => exact ends_ok numbering
  | broken fault => simpa [Walk.Ends, Walk.fault?, Ends, countAlong] using walkEnds
  | visit node rest ih =>
      refine (ends_isAnonymous loopless node).bind fun counted _ => ?_
      cases counted with
      | true => exact ih () walkEnds (numbering.count node)
      | false => exact ih () walkEnds numbering

theorem ends_numbering (acyclic : tree.Acyclic) (root : Handle) : Ends (tree.numbering root) := by
  rw [numbering_eq, scopeWalk, bind_assoc]
  refine (tree.ends_hasKind .file root).bind fun file _ => ?_
  cases file with
  | true =>
      exact ends_countAlong acyclic.parents
        (ends_preorder acyclic.children (ends_plays acyclic.parents .topLevelClass) root) .empty
  | false =>
      exact ends_countAlong acyclic.parents
        (ends_preorder acyclic.children (fun _ => ends_ok false) root) .empty

theorem ends_scopeOf (loopless : Loopless tree.NamesParent) (node : Handle) :
    Ends (tree.scopeOf node) := by
  refine (ends_nearestAbove loopless (ends_isTopLevel loopless) node).bind fun found _ => ?_
  cases found with
  | none => exact tree.ends_refuse node _ _
  | some top =>
      refine (tree.ends_hasKind .klass top).bind fun klass _ => ?_
      cases klass with
      | true => exact ends_ok top
      | false =>
          refine (ends_nearestAbove loopless (tree.ends_hasKind .file) top).bind fun file _ => ?_
          cases file with
          | none => exact tree.ends_refuse node _ _
          | some file => exact ends_ok file

theorem ends_indexOf (acyclic : tree.Acyclic) (node : Handle) :
    Ends ((tree.indexOf node).eval tree) := by
  rw [indexOf]
  refine (ends_isAnonymous acyclic.parents node).eval_bind fun counted _ => ?_
  cases counted with
  | true =>
      refine (ends_scopeOf acyclic.parents node).eval_bind fun root _ => ?_
      rw [Inquiry.eval_bind, Inquiry.eval_numbering]
      refine (ends_numbering acyclic root).bind fun numbering _ => ?_
      cases numbering.get? node with
      | some index => exact ends_ok index
      | none =>
          rw [Inquiry.eval_lift]
          exact tree.ends_refuse node _ _
  | false =>
      refine (tree.ends_caption node).eval_bind fun caption _ => ?_
      simp [Ends]

/-! ## Names -/

theorem ends_holder (tree : ScopeTree) (node : Handle) : Ends (tree.holder node) := by
  refine (tree.ends_parent node).bind fun named _ => ?_
  cases named with
  | some parent => exact ends_ok parent
  | none => exact tree.ends_refuse node _ _

theorem ends_properName (tree : ScopeTree) (node : Handle) : Ends (tree.properName node) := by
  refine (tree.ends_name node).bind fun name _ => ?_
  cases name with
  | some name => exact ends_ok name
  | none =>
      refine (tree.ends_title node).bind fun title _ => ?_
      simp [Ends, throw, throwThe, MonadExceptOf.throw]

theorem ends_packageAround (loopless : Loopless tree.NamesParent) (node : Handle) :
    Ends (tree.packageAround node) := by
  refine (ends_nearestAbove loopless (tree.ends_hasKind .package) node).bind fun found _ => ?_
  cases found with
  | none => exact ends_ok ""
  | some package => exact (tree.ends_properName package).map packagePath

theorem ends_fileClassAround (loopless : Loopless tree.NamesParent) (node : Handle) :
    Ends (tree.fileClassAround node) := by
  refine (ends_nearestAbove loopless (tree.ends_hasKind .file) node).bind fun found _ => ?_
  cases found with
  | none => exact tree.ends_refuse node _ _
  | some file => exact (tree.ends_properName file).map fileClass

theorem ends_chainName (tree : ScopeTree) (chain : List Handle) : Ends (tree.chainName chain) := by
  induction chain with
  | nil => exact ends_ok ""
  | cons inner outer ih =>
      cases outer with
      | nil => exact tree.ends_properName inner
      | cons outer rest =>
          exact ih.bind fun path _ => (tree.ends_properName inner).bind fun name _ => ends_ok _

theorem ends_ofClass (loopless : Loopless tree.NamesParent) (node : Handle) :
    Ends (Resolution.ofClass tree node) := by
  have chainEnds : Ends (tree.classChain node) :=
    (ends_ancestorsAndSelf loopless node).takeWhileM (tree.ends_hasKind .klass)
  refine chainEnds.bind fun chain _ => ?_
  cases chain.getLast? with
  | none => simp [Ends, throw, throwThe, MonadExceptOf.throw]
  | some outermost =>
      refine (tree.ends_holder outermost).bind fun container _ => ?_
      refine (tree.ends_kind container).bind fun kind _ => ?_
      cases holds : kind.isContainer with
      | true =>
          exact (ends_packageAround loopless outermost).bind fun path _ =>
            (tree.ends_chainName chain).bind fun name _ => ends_ok _
      | false =>
          exact (tree.ends_caption outermost).bind fun caption _ => tree.ends_refuse node _ _

theorem ends_ofAnonymous (acyclic : tree.Acyclic) {around : Handle → Inquiry Resolution}
    {node : Handle}
    (ends : ∀ base ∈ (tree.ancestors node).visited, Ends ((around base).eval tree)) :
    Ends ((Resolution.ofAnonymous tree around node).eval tree) := by
  have loopless := acyclic.parents
  refine (ends_nearestAbove loopless (ends_isBase loopless) node).eval_bind
    fun found nearest_eq => ?_
  cases found with
  | none =>
      rw [Inquiry.eval_lift]
      exact tree.ends_refuse node _ _
  | some base =>
      have above := (Walk.mem_visited_of_findM? nearest_eq).1
      rw [Inquiry.eval_bind]
      refine (ends_indexOf acyclic node).bind fun index _ => ?_
      rw [Inquiry.eval_bind]
      exact (ends base above).bind fun outer _ => ends_ok _

theorem ends_ofFunction (acyclic : tree.Acyclic) {around : Handle → Inquiry Resolution}
    {node : Handle}
    (ends : ∀ base ∈ (tree.ancestors node).visited, Ends ((around base).eval tree)) :
    Ends ((Resolution.ofFunction tree around node).eval tree) := by
  have loopless := acyclic.parents
  refine (tree.ends_holder node).eval_bind fun parent holder_eq => ?_
  refine (ends_plays loopless .topLevelFunction node).eval_bind fun top _ => ?_
  cases top with
  | true =>
      exact (ends_packageAround loopless node).eval_bind fun path _ =>
        (ends_fileClassAround loopless node).eval_bind fun name _ => ends_ok _
  | false =>
      refine (ends_plays loopless .localFunction node).eval_bind fun inner _ => ?_
      cases inner with
      | true => exact ends_ofAnonymous acyclic ends
      | false =>
          refine (ends_plays loopless .memberFunction node).eval_bind fun member _ => ?_
          cases member with
          | true =>
              have above := parent_mem_ancestors loopless (parent_of_holder holder_eq)
              rw [if_pos rfl, Inquiry.eval_bind]
              exact (ends parent above).bind fun outer _ => ends_ok _
          | false =>
              refine (tree.ends_caption node).eval_bind fun caption _ => ?_
              rw [Inquiry.eval_lift]
              exact tree.ends_refuse node _ _

/-- Naming a node comes to an end. -/
theorem ends_resolve (acyclic : tree.Acyclic) (node : Handle) :
    Ends ((tree.resolve node).eval tree) := by
  -- The nodes that a rule asks to be named are above the node.
  induction depth : tree.height tree.NamesParent node using Nat.strongRecOn generalizing node with
  | ind depth ih =>
      have ends : ∀ base ∈ (tree.ancestors node).visited, Ends ((tree.resolve base).eval tree) := by
        intro base above
        have lower := height_lt_of_mem_ancestors acyclic.parents above
        exact ih _ (by omega) base rfl
      rw [resolve_eq, Resolution.ofNode]
      refine (tree.ends_kind node).eval_bind fun kind _ => ?_
      cases kind.spelled with
      | klass =>
          rw [Inquiry.eval_lift]
          exact ends_ofClass acyclic.parents node
      | function => exact ends_ofFunction acyclic ends
      | lambda => exact ends_ofAnonymous acyclic ends
      | file | package =>
          refine (tree.ends_caption node).eval_bind fun caption _ => ?_
          simp [Ends]
      | unknown tag => simp [Ends]

theorem ends_className (acyclic : tree.Acyclic) (node : Handle) :
    Ends ((tree.className node).eval tree) := by
  rw [className, Inquiry.eval_map]
  exact (ends_resolve acyclic node).map Resolution.name

end ScopeTree

end BinaryName
