import BinaryName.Proofs.Naming.Domain
import BinaryName.Proofs.Tree.Ancestors

/-!
# How naming fails

A naming that fails does so in few ways.  A node of a kind without a naming rule is a misfit itself.
For any other node the tree is malformed at the node or at one of its ancestors, or a message would
mention an ancestor that has no title.  Each step of a rule keeps to this, and so does the naming of
what is around the node, whose ancestors are ancestors of the node.  A plain tag that is spelled
like one of the five kinds is apart from this: the rule that its spelling picks cannot be followed.
-/

namespace BinaryName

/-- There is a naming rule for nodes of the kind. -/
def Kind.hasRule : Kind → Bool
  | .klass | .function | .lambda => true
  | .file | .package | .unknown _ => false

namespace ScopeTree

/-- The faults that keep a node with a naming rule from having a name. -/
inductive Explains (tree : ScopeTree) (node : Handle) : Fault → Prop
  /-- The tree is malformed at the node or at one of its ancestors. -/
  | malformed {above : Handle} {reason : Defect}
      (member : above ∈ (tree.ancestorsAndSelf node).visited) :
      Explains tree node (.malformed above reason)
  /-- A strict ancestor of the node has no title. -/
  | untitled {above : Handle} {tag : String} (member : above ∈ (tree.ancestors node).visited)
      (kind_eq : tree.kind above = .ok (.unknown tag)) : Explains tree node .untitledKind

/-- If there is no value, the fault is one that is to be expected for the node. -/
def Settles {α : Type} (tree : ScopeTree) (node : Handle) (outcome : Except Fault α) : Prop :=
  ∀ fault, outcome = .error fault → tree.Explains node fault

variable {tree : ScopeTree} {node above parent : Nat} {α β : Type}

theorem settles_of_ok {node : Handle} {outcome : Except Fault α}
    (answered : ∃ value, outcome = .ok value) : tree.Settles node outcome := by
  obtain ⟨value, rfl⟩ := answered
  intro fault failed
  contradiction

theorem settles_ok {node : Handle} (value : α) : tree.Settles node (.ok value) :=
  settles_of_ok ⟨value, rfl⟩

theorem Settles.bind {node : Handle} {first : Except Fault α} {next : α → Except Fault β}
    (settles : tree.Settles node first)
    (later : ∀ value, first = .ok value → tree.Settles node (next value)) :
    tree.Settles node (first >>= next) := by
  cases first with
  | error fault =>
      intro other failed
      obtain rfl : fault = other := Except.error.inj failed
      exact settles fault rfl
  | ok value => exact later value rfl

theorem Settles.eval_bind {node : Handle} {first : Except Fault α} {next : α → Inquiry β}
    (settles : tree.Settles node first)
    (later : ∀ value, first = .ok value → tree.Settles node ((next value).eval tree)) :
    tree.Settles node (((liftM first : Inquiry α) >>= next).eval tree) := by
  rw [Inquiry.eval_bind, Inquiry.eval_lift]
  exact settles.bind later

/-- What settles an ancestor settles the node. -/
theorem Settles.of_ancestor {outcome : Except Fault α} (ordered : tree.Ordered)
    (inside : node < tree.size) (member : (above : Int) ∈ (tree.ancestors (node : Int)).visited)
    (settles : tree.Settles above outcome) : tree.Settles node outcome := by
  obtain ⟨place, same, above_inside⟩ := exists_place_of_mem_ancestors ordered inside
    (mem_ancestorsAndSelf_of_mem_ancestors ordered.loopless member)
  obtain rfl : above = place := Int.ofNat_inj.mp same
  intro fault failed
  cases settles fault failed with
  | malformed also =>
      exact .malformed (mem_ancestorsAndSelf_of_mem_ancestors ordered.loopless
        (mem_ancestors_trans ordered.loopless member also))
  | untitled also kind_eq =>
      exact .untitled (mem_ancestors_trans ordered.loopless member
        (mem_ancestorsAndSelf_of_mem_ancestors ordered.loopless also)) kind_eq

end ScopeTree

namespace ScopeTree

variable {tree : ScopeTree} {node above mentioned : Nat} {α : Type}

/-! ## Messages -/

/-- A message may mention a node that has a title, and any strict ancestor. -/
theorem settles_caption (inside : mentioned < tree.size)
    (allowed : (∃ caption, tree.caption (mentioned : Int) = .ok caption) ∨
      (mentioned : Int) ∈ (tree.ancestors (node : Int)).visited) :
    tree.Settles node (tree.caption (mentioned : Int)) := by
  rcases allowed with titled | member
  · exact settles_of_ok titled
  · have kind_eq := kind_natCast tree inside
    cases kind : tree.records[mentioned].kind with
    | unknown tag =>
        rw [kind] at kind_eq
        intro fault failed
        have untitled : tree.caption (mentioned : Int) = .error .untitledKind := by
          rw [caption, title, kind_eq]
          rfl
        rw [untitled] at failed
        rw [← Except.error.inj failed]
        exact .untitled member kind_eq
    | file | package | klass | function | lambda =>
        rw [kind] at kind_eq
        exact settles_of_ok (exists_caption_of_title kind_eq rfl)

theorem settles_refuse (inside : mentioned < tree.size)
    {defect : Caption → Defect} {blamed : Handle}
    (member : blamed ∈ (tree.ancestorsAndSelf (node : Int)).visited)
    (allowed : (∃ caption, tree.caption (mentioned : Int) = .ok caption) ∨
      (mentioned : Int) ∈ (tree.ancestors (node : Int)).visited) :
    tree.Settles node (tree.refuse blamed defect mentioned : Except Fault α) := by
  rw [refuse]
  apply (settles_caption inside allowed).bind
  intro caption _ fault failed
  rw [← Except.error.inj failed]
  exact .malformed member

/-! ## Classes -/

theorem exists_properName (named : tree.Named) (inside : node < tree.size) {given : Kind}
    (kind_eq : tree.kind (node : Int) = .ok given) (other : given ≠ .lambda) :
    ∃ name, tree.properName (node : Int) = .ok name := by
  obtain ⟨name, name_eq⟩ := named node inside (by simpa [kind_eq] using other)
  exact ⟨name, properName_eq name_eq⟩

theorem exists_chainName {chain : List Handle}
    (each : ∀ node ∈ chain, ∃ name, tree.properName node = .ok name) :
    ∃ name, tree.chainName chain = .ok name := by
  induction chain with
  | nil => exact ⟨"", rfl⟩
  | cons inner outer ih =>
      obtain ⟨name, name_eq⟩ := each inner List.mem_cons_self
      obtain ⟨path, path_eq⟩ := ih fun node member => each node (List.mem_cons_of_mem _ member)
      cases outer with
      | nil => exact ⟨name, name_eq⟩
      | cons outer further =>
          refine ⟨path ++ "$" ++ name, ?_⟩
          rw [chainName, path_eq, name_eq]
          · rfl
          · simp

/-- The chain of a class is made of classes that are the class itself or around it. -/
theorem exists_place_of_mem_chain (ordered : tree.Ordered) (inside : node < tree.size)
    (klass : tree.kind (node : Int) = .ok .klass) {chain : List Handle}
    (chain_eq : tree.classChain (node : Int) = .ok chain) {other : Handle}
    (member : other ∈ (node : Int) :: chain) :
    ∃ place : Nat, other = place ∧ place < tree.size ∧ tree.kind other = .ok .klass ∧
      other ∈ (tree.ancestorsAndSelf (node : Int)).visited := by
  rcases List.mem_cons.mp member with rfl | further
  · exact ⟨node, rfl, inside, klass, mem_ancestorsAndSelf ordered.loopless _⟩
  · obtain ⟨visited, passes⟩ := Walk.mem_visited_of_takeWhileM chain_eq other further
    obtain ⟨place, rfl, place_lt⟩ := exists_place_of_mem_ancestors ordered inside visited
    have kind_eq := kind_natCast tree place_lt
    have same : tree.records[place].kind = .klass := by
      simpa [hasKind, kind_eq, Except.map] using passes
    exact ⟨place, rfl, place_lt, by rw [kind_eq, same], visited⟩

/-- A node that must have a parent has one, or the tree is malformed there. -/
theorem settles_holder (ordered : tree.Ordered) (above_inside : above < tree.size)
    (member : (above : Int) ∈ (tree.ancestorsAndSelf (node : Int)).visited)
    (titled : ∃ caption, tree.caption (above : Int) = .ok caption) :
    tree.Settles node (tree.holder (above : Int)) := by
  rw [holder]
  rcases ordered above above_inside with root_eq | ⟨parent, -, parent_eq⟩
  · rw [root_eq]
    exact settles_refuse above_inside member (Or.inl titled)
  · rw [parent_eq]
    exact settles_ok (parent : Int)

theorem exists_place_of_holder (ordered : tree.Ordered) (above_inside : above < tree.size)
    (member : (above : Int) ∈ (tree.ancestorsAndSelf (node : Int)).visited) {container : Handle}
    (holder_eq : tree.holder (above : Int) = .ok container) :
    ∃ place : Nat, container = place ∧ place < above ∧
      (place : Int) ∈ (tree.ancestors (node : Int)).visited := by
  have container_eq := parent_of_holder holder_eq
  rcases ordered above above_inside with root_eq | ⟨parent, parent_lt, parent_eq⟩
  · simp [container_eq] at root_eq
  · obtain rfl : container = parent :=
      Option.some.inj (Except.ok.inj (container_eq.symm.trans parent_eq))
    have direct := parent_mem_ancestors ordered.loopless parent_eq
    refine ⟨parent, rfl, parent_lt, ?_⟩
    rw [visited_ancestorsAndSelf ordered.loopless] at member
    rcases List.mem_cons.mp member with same | further
    · rwa [← same]
    · exact mem_ancestors_trans ordered.loopless further
        (mem_ancestorsAndSelf_of_mem_ancestors ordered.loopless direct)

theorem settles_ofClass (ordered : tree.Ordered) (named : tree.Named) (inside : node < tree.size)
    (klass : tree.kind (node : Int) = .ok .klass) :
    tree.Settles node (Resolution.ofClass tree (node : Int)) := by
  obtain ⟨chain, chain_eq⟩ := exists_classChain ordered inside
  have in_chain := fun other => @exists_place_of_mem_chain tree node ordered inside klass chain
    chain_eq other
  obtain ⟨last, last_member, last_eq⟩ := exists_outermost_of_klass klass chain_eq
  obtain ⟨outermost, rfl, outermost_inside, outermost_klass, visited⟩ :=
    in_chain last (List.mem_cons_of_mem _ last_member)
  have chain_names : ∀ other ∈ chain, ∃ name, tree.properName other = .ok name := by
    intro other member
    obtain ⟨place, rfl, place_lt, place_klass, -⟩ := in_chain other (List.mem_cons_of_mem _ member)
    exact exists_properName named place_lt place_klass (by simp)
  have titled := exists_caption_of_title outermost_klass rfl
  rw [ofClass_of_outermost chain_eq last_eq]
  refine (settles_holder ordered outermost_inside visited titled).bind fun container holder_eq => ?_
  obtain ⟨place, rfl, place_lt, above⟩ :=
    exists_place_of_holder ordered outermost_inside visited holder_eq
  have place_inside : place < tree.size := by omega
  rw [kind_natCast tree place_inside]
  refine (settles_ok _).bind fun given _ => ?_
  cases holds : given.isContainer with
  | true =>
      obtain ⟨path, path_eq⟩ := exists_packageAround ordered named outermost_inside
      obtain ⟨name, name_eq⟩ := exists_chainName chain_names
      rw [if_pos rfl, path_eq, name_eq]
      exact settles_ok _
  | false =>
      rw [if_neg Bool.false_ne_true]
      refine (settles_of_ok titled).bind fun caption _ => ?_
      exact settles_refuse place_inside (mem_ancestorsAndSelf ordered.loopless _) (Or.inr above)

/-! ## Functions and lambdas -/

theorem settles_nearestAbove {test : Test} {verdict : List Kind → Bool}
    (judges : tree.Judges test verdict) (ordered : tree.Ordered) (inside : node < tree.size)
    {blamed : Handle} : tree.Settles blamed (tree.nearestAbove test (node : Int)) := by
  rcases judges.nearestAbove ordered inside with ⟨none_eq, -⟩ | ⟨place, -, place_eq, -⟩
  · rw [none_eq]
    exact settles_ok none
  · rw [place_eq]
    exact settles_ok (some (place : Int))

theorem settles_fileClassAround (ordered : tree.Ordered) (named : tree.Named)
    (inside : node < tree.size) (titled : ∃ caption, tree.caption (node : Int) = .ok caption) :
    tree.Settles node (tree.fileClassAround (node : Int)) := by
  have judges := judges_hasKind ordered .file
  rw [fileClassAround]
  refine (settles_nearestAbove judges ordered inside).bind fun found nearest_eq => ?_
  cases found with
  | none => exact settles_refuse inside (mem_ancestorsAndSelf ordered.loopless _) (Or.inl titled)
  | some file =>
      obtain ⟨place, rfl, place_lt, passes, -⟩ :=
        exists_place_of_nearestAbove judges ordered inside nearest_eq
      have place_inside : place < tree.size := by omega
      have kind_eq := kind_of_head? ordered place_inside (beq_iff_eq.mp passes)
      obtain ⟨name, name_eq⟩ := exists_properName named place_inside kind_eq (by simp)
      dsimp only
      rw [name_eq]
      exact settles_ok (fileClass name)

theorem settles_scopeOf (ordered : tree.Ordered) (inside : node < tree.size)
    (titled : ∃ caption, tree.caption (node : Int) = .ok caption) :
    tree.Settles node (tree.scopeOf (node : Int)) := by
  have judges := judges_isTopLevel ordered
  rw [scopeOf]
  refine (settles_nearestAbove judges ordered inside).bind fun found nearest_eq => ?_
  cases found with
  | none => exact settles_refuse inside (mem_ancestorsAndSelf ordered.loopless _) (Or.inl titled)
  | some top =>
      obtain ⟨place, rfl, place_lt, -, member⟩ :=
        exists_place_of_nearestAbove judges ordered inside nearest_eq
      have place_inside : place < tree.size := by omega
      dsimp only
      rw [hasKind_eq ordered place_inside]
      refine (settles_ok _).bind fun klass _ => ?_
      cases klass with
      | true => exact settles_ok (place : Int)
      | false =>
          rw [if_neg Bool.false_ne_true]
          refine (settles_nearestAbove (judges_hasKind ordered .file) ordered place_inside).bind
            fun file _ => ?_
          cases file with
          | none =>
              exact settles_refuse place_inside (mem_ancestorsAndSelf ordered.loopless _)
                (Or.inr member)
          | some file => exact settles_ok file

/-- A base is of a kind with a naming rule. -/
theorem hasRule_of_isBase (ordered : tree.Ordered) (inside : node < tree.size)
    (base : Lineage.isBase (tree.lineage node) = true) :
    ∃ given, tree.kind (node : Int) = .ok given ∧ given.hasRule = true := by
  rw [Lineage.isBase, Bool.or_eq_true, Bool.or_eq_true, beq_iff_eq] at base
  rcases base with klass | top | member
  · exact ⟨.klass, kind_of_head? ordered inside klass, rfl⟩
  · exact ⟨.function, kind_of_head? ordered inside (Role.head?_of_fits top), rfl⟩
  · exact ⟨.function, kind_of_head? ordered inside (Role.head?_of_fits member), rfl⟩

/-- The nodes before a node that have a naming rule are named, or they fail as is to be expected. -/
def SettlesBefore (tree : ScopeTree) (node : Nat) : Prop :=
  ∀ base : Nat, base < node → ∀ given, tree.kind (base : Int) = .ok given → given.hasRule = true →
    tree.Settles base ((tree.resolve (base : Int)).eval tree)

end ScopeTree

namespace Decl.Fills

open ScopeTree

variable {whole : Decl} {tree : ScopeTree} {node : Nat}

theorem settles_indexOf (fills : whole.Fills tree) (inside : node < tree.size)
    (counted : Lineage.isAnonymous (tree.lineage node) = true) :
    tree.Settles node ((tree.indexOf node).eval tree) := by
  have ordered := fills.ordered
  have titled := fills.exists_caption inside counted
  cases scope_eq : tree.scopeOf (node : Int) with
  | error fault =>
      have anonymous : tree.isAnonymous (node : Int) = .ok true :=
        (judges_isAnonymous ordered).of_verdict inside counted
      rw [eval_indexOf anonymous]
      exact (settles_scopeOf ordered inside titled).bind fun root root_eq => by
        simp [scope_eq] at root_eq
  | ok root =>
      rcases fills.eval_indexOf_of_scopeOf inside counted scope_eq with
        ⟨answered, -⟩ | ⟨refused, -⟩
      · exact settles_of_ok answered
      · rw [refused]
        exact settles_refuse inside (mem_ancestorsAndSelf ordered.loopless _) (Or.inl titled)

theorem settles_ofAnonymous (fills : whole.Fills tree) (inside : node < tree.size)
    (counted : Lineage.isAnonymous (tree.lineage node) = true)
    (settles : SettlesBefore tree node) :
    tree.Settles node ((Resolution.ofAnonymous tree tree.resolve (node : Int)).eval tree) := by
  have ordered := fills.ordered
  have titled := fills.exists_caption inside counted
  have judges := judges_isBase ordered
  rw [Resolution.ofAnonymous]
  refine (settles_nearestAbove judges ordered inside).eval_bind fun found nearest_eq => ?_
  cases found with
  | none =>
      rw [Inquiry.eval_lift]
      exact settles_refuse inside (mem_ancestorsAndSelf ordered.loopless _) (Or.inl titled)
  | some base =>
      obtain ⟨place, rfl, place_lt, isBase, member⟩ :=
        exists_place_of_nearestAbove judges ordered inside nearest_eq
      obtain ⟨given, kind_eq, ruled⟩ := hasRule_of_isBase ordered (by omega) isBase
      rw [Inquiry.eval_bind]
      refine (fills.settles_indexOf inside counted).bind fun index _ => ?_
      rw [Inquiry.eval_bind]
      refine ((settles place place_lt given kind_eq ruled).of_ancestor ordered inside member).bind
        fun outer _ => ?_
      exact settles_ok _

theorem settles_ofFunction (fills : whole.Fills tree) (inside : node < tree.size)
    (function : tree.kind (node : Int) = .ok .function) (settles : SettlesBefore tree node) :
    tree.Settles node ((Resolution.ofFunction tree tree.resolve (node : Int)).eval tree) := by
  have ordered := fills.ordered
  have here := mem_ancestorsAndSelf ordered.loopless (node : Int)
  have titled := exists_caption_of_title function rfl
  rw [Resolution.ofFunction]
  refine (settles_holder ordered inside here titled).eval_bind fun parent holder_eq => ?_
  obtain ⟨place, rfl, place_lt, member⟩ :=
    exists_place_of_holder ordered inside here holder_eq
  rw [judges_plays ordered .topLevelFunction node inside]
  refine (settles_ok _).eval_bind fun top top_eq => ?_
  cases top with
  | true =>
      obtain ⟨path, path_eq⟩ := exists_packageAround ordered fills.named inside
      rw [if_pos rfl, path_eq]
      refine (settles_ok path).eval_bind fun _ _ => ?_
      refine (settles_fileClassAround ordered fills.named inside titled).eval_bind fun name _ => ?_
      exact settles_ok _
  | false =>
      rw [if_neg Bool.false_ne_true, judges_plays ordered .localFunction node inside]
      refine (settles_ok _).eval_bind fun inner inner_eq => ?_
      cases inner with
      | true =>
          have counted : Lineage.isAnonymous (tree.lineage node) = true := by
            rw [Lineage.isAnonymous, Except.ok.inj inner_eq, Bool.or_true]
          rw [if_pos rfl]
          exact fills.settles_ofAnonymous inside counted settles
      | false =>
          rw [if_neg Bool.false_ne_true, judges_plays ordered .memberFunction node inside]
          refine (settles_ok _).eval_bind fun ofClass ofClass_eq => ?_
          cases ofClass with
          | true =>
              have member_test := judges_plays ordered .memberFunction node inside
              rw [ofClass_eq] at member_test
              have klass := kind_of_member (parent_of_holder holder_eq) member_test
              rw [if_pos rfl, Inquiry.eval_bind]
              refine ((settles place place_lt .klass klass rfl).of_ancestor ordered inside
                member).bind fun outer _ => ?_
              exact settles_ok _
          | false =>
              rw [if_neg Bool.false_ne_true]
              refine (settles_of_ok titled).eval_bind fun caption _ => ?_
              rw [Inquiry.eval_lift]
              exact settles_refuse (by omega) here (Or.inr member)

/-- A node with a naming rule has a name, or its naming fails as is to be expected. -/
theorem settles_resolve (fills : whole.Fills tree) (inside : node < tree.size) {given : Kind}
    (kind_eq : tree.kind (node : Int) = .ok given) (ruled : given.hasRule = true) :
    tree.Settles node ((tree.resolve (node : Int)).eval tree) := by
  have ordered := fills.ordered
  -- What a rule asks to be named comes before the node: it is the class or base around the node.
  induction node using Nat.strongRecOn generalizing given with
  | ind node ih =>
      have settles : SettlesBefore tree node := fun base base_lt kind base_kind base_ruled =>
        ih base base_lt (by omega) base_kind base_ruled
      cases given with
      | klass =>
          rw [eval_resolve_klass kind_eq]
          exact settles_ofClass ordered fills.named inside kind_eq
      | function =>
          rw [resolve_eq, Resolution.ofNode_function kind_eq]
          exact fills.settles_ofFunction inside kind_eq settles
      | lambda =>
          have counted : Lineage.isAnonymous (tree.lineage node) = true := by
            rw [Lineage.isAnonymous, head?_of_kind ordered inside kind_eq]
            rfl
          rw [resolve_eq, Resolution.ofNode_lambda kind_eq]
          exact fills.settles_ofAnonymous inside counted settles
      | file | package | unknown tag => simp [Kind.hasRule] at ruled

end Decl.Fills

namespace ScopeTree

variable {tree : ScopeTree}

/-- A node without a naming rule is a misfit itself. -/
theorem eval_resolve_of_unruled {node : Handle} {given : Kind}
    (kind_eq : tree.kind node = .ok given)
    (unruled : given.hasRule = false) (genuine : given.spelled = given) :
    ∃ reason, (tree.resolve node).eval tree = .error (.misfit node reason) := by
  rw [resolve, Resolution.within, Resolution.ofNode, kind_eq, Resolution.liftM_ok, pure_bind,
    genuine]
  cases given with
  | klass | function | lambda => simp [Kind.hasRule] at unruled
  | file | package =>
      obtain ⟨caption, caption_eq⟩ := exists_caption_of_title kind_eq rfl
      refine ⟨.noClass caption, ?_⟩
      simp only [caption_eq, Resolution.liftM_ok, pure_bind, Inquiry.eval_fail]
  | unknown tag => exact ⟨.unknownKind tag, rfl⟩

/-- A plain tag that is spelled like one of the five kinds has no chain of classes and no title. -/
theorem eval_resolve_of_spelled (ordered : tree.Ordered) {node : Nat} (inside : node < tree.size)
    {given : Kind} (kind_eq : tree.kind (node : Int) = .ok given) (other : given.spelled ≠ given) :
    (tree.resolve (node : Int)).eval tree =
      .error (if given.spelled = .klass then .emptyChain else .untitledKind) := by
  cases given with
  | file | package | klass | function | lambda => exact absurd rfl other
  | unknown tag =>
      have around := (judges_isBase ordered).nearestAbove ordered inside
      rw [resolve, Resolution.within, Resolution.ofNode_plain kind_eq, Inquiry.eval_fail,
        Resolution.plainFault]
      change Kind.ofTag tag ≠ _ at other
      change _ = Except.error (if Kind.ofTag tag = .klass then _ else _)
      cases spelled : Kind.ofTag tag with
      | klass | function | file | package => rfl
      | lambda => rcases around with ⟨none_eq, -⟩ | ⟨base, -, base_eq, -⟩ <;> simp [*]
      | unknown text =>
          have same : tag = text := by
            rw [← Kind.tag_ofTag tag, spelled]
            rfl
          exact absurd (by rw [spelled, same]) other

/-- Every record is of one of the five kinds. -/
def KindsKnown (tree : ScopeTree) : Prop :=
  ∀ record ∈ tree.records, ∀ tag, record.kind ≠ .unknown tag

theorem KindsKnown.kind_ne (known : tree.KindsKnown) (node : Handle) (tag : String) :
    tree.kind node ≠ .ok (.unknown tag) := by
  rw [kind, record]
  cases tree.position? node with
  | none => simp [Except.map]
  | some position =>
      have kind_ne := known _ (Array.getElem_mem position.isLt) tag
      simpa [Except.map] using kind_ne

theorem Explains.malformed_of_kindsKnown (known : tree.KindsKnown) {node : Handle} {fault : Fault}
    (explains : tree.Explains node fault) : ∃ above reason, fault = .malformed above reason := by
  cases explains with
  | @malformed above reason => exact ⟨above, reason, rfl⟩
  | @untitled above tag _ kind_eq => exact absurd kind_eq (known.kind_ne above tag)

end ScopeTree

/-- Where every kind is known, the names of a walk are found or the tree is malformed. -/
theorem Decl.Fills.eval_nameAlong_of_kindsKnown {whole : Decl} {tree : ScopeTree}
    (fills : whole.Fills tree) (known : tree.KindsKnown) {nodes : List Handle}
    (inside : ∀ node ∈ nodes, ∃ place : Nat, node = place ∧ place < tree.size)
    (names : Register String) :
    (∃ all, (tree.nameAlong names (Walk.stop.after nodes)).eval tree = .ok all) ∨
      ∃ above reason, (tree.nameAlong names (Walk.stop.after nodes)).eval tree =
        .error (.malformed above reason) := by
  induction nodes generalizing names with
  | nil => exact Or.inl ⟨names, rfl⟩
  | cons node rest ih =>
      obtain ⟨place, rfl, place_lt⟩ := inside node List.mem_cons_self
      have further := ih fun other member => inside other (List.mem_cons_of_mem _ member)
      have kind_eq := ScopeTree.kind_natCast tree place_lt
      rw [Walk.after, ScopeTree.nameAlong, kind_eq, Resolution.liftM_ok, pure_bind]
      cases holds : tree.records[place].kind.isContainer with
      | true =>
          rw [if_pos rfl]
          exact further names
      | false =>
          have ruled : tree.records[place].kind.hasRule = true := by
            cases given : tree.records[place].kind with
            | klass | function | lambda => rfl
            | file | package => simp [given, Kind.isContainer] at holds
            | unknown tag => exact absurd (by rw [kind_eq, given]) (known.kind_ne place tag)
          rw [if_neg Bool.false_ne_true, Inquiry.eval_bind, ScopeTree.className, Inquiry.eval_map]
          cases outcome : (tree.resolve (place : Int)).eval tree with
          | ok resolution => exact further (names.put place resolution.name)
          | error fault =>
              obtain ⟨above, reason, rfl⟩ :=
                (fills.settles_resolve place_lt kind_eq ruled fault outcome).malformed_of_kindsKnown
                  known
              exact Or.inr ⟨above, reason, rfl⟩

/-! ## Sessions -/

namespace Session

open NumberingCache

/-- A class in a declaration of an unknown kind, and a plain tag in the spelling of a class. -/
def strayKind : Decl :=
  .declare (.unmarked .file "a.kt")
    [.declare (.unmarked (.unknown "interface") "I")
      [.declare (.unmarked .klass "A") [.declare (.unmarked .lambda none) []]],
    .declare (.unmarked (.unknown "class") "C") []]

/-- Their tree. -/
def strayTree : ScopeTree :=
  { records :=
      #[{ kind := .file, name := some "a.kt", parent := none, children := [1, 4] },
        { kind := .unknown "interface", name := some "I", parent := some 0, children := [2] },
        { kind := .klass, name := some "A", parent := some 1, children := [3] },
        { kind := .lambda, name := none, parent := some 2, children := [] },
        { kind := .unknown "class", name := some "C", parent := some 0, children := [] }]
    size_pos := by decide
    parent_root := rfl }

/-- A class in a function. -/
def localClass : Decl :=
  .declare (.unmarked .file "b.kt")
    [.declare (.unmarked .function "f") [.declare (.unmarked .klass "B") []]]

/-- The tree of the class in a function. -/
def localClassTree : ScopeTree :=
  { records :=
      #[{ kind := .file, name := some "b.kt", parent := none, children := [1] },
        { kind := .function, name := some "f", parent := some 0, children := [2] },
        { kind := .klass, name := some "B", parent := some 1, children := [] }]
    size_pos := by decide
    parent_root := rfl }

/-- A cache that has numbered the lambda of the first tree. -/
def strayCache : NumberingCache :=
  { capacity := 1, entries := [(⟨0, 0⟩, { entries := [(3, 1)] })] }

end Session

end BinaryName
