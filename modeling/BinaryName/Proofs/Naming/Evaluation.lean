import BinaryName.Proofs.Tree.Ancestors

/-!
# Evaluation of names

Three rounds of naming are enough.  A class is named in one round, a base in two, and what is around
any other node is a base.  So the name of a node follows its rule with the names of the nodes around
it, however many rounds those took.
-/

namespace BinaryName

namespace Inquiry

variable {α β : Type} (tree : ScopeTree)

@[simp] theorem eval_pure (value : α) : (pure value : Inquiry α).eval tree = .ok value := rfl

@[simp] theorem eval_fail (fault : Fault) : (fail fault : Inquiry α).eval tree = .error fault := rfl

@[simp] theorem eval_numbering (root : Handle) :
    (Inquiry.numbering root).eval tree = tree.numbering root := by
  cases outcome : tree.numbering root <;> simp [Inquiry.numbering, eval, outcome]

@[simp] theorem eval_lift (result : Except Fault α) :
    (liftM result : Inquiry α).eval tree = result := by
  cases result <;> rfl

@[simp] theorem eval_bind (inquiry : Inquiry α) (next : α → Inquiry β) :
    (inquiry >>= next).eval tree = inquiry.eval tree >>= fun value => (next value).eval tree := by
  induction inquiry with
  | answer value => rfl
  | fail fault => rfl
  | ask root following ih =>
      have step : ∀ numbering : Numbering, ((following numbering).andThen next).eval tree =
          (following numbering).eval tree >>= fun value => (next value).eval tree := ih
      cases outcome : tree.numbering root with
      | error fault => simp [bind, andThen, eval, outcome, Except.bind]
      | ok numbering => simpa [bind, andThen, eval, outcome] using step numbering

@[simp] theorem eval_map (change : α → β) (inquiry : Inquiry α) :
    (change <$> inquiry).eval tree = change <$> inquiry.eval tree := by
  rw [← bind_pure_comp, eval_bind, ← bind_pure_comp]
  rfl

end Inquiry

theorem Test.passes_of_either {first second : Test} {node : Handle}
    (passes : Test.either first second node = .ok true) :
    first node = .ok true ∨ second node = .ok true := by
  rw [Test.either] at passes
  obtain ⟨fits, fits_eq, passes⟩ := bind_eq_ok_iff.mp passes
  cases fits with
  | true => exact Or.inl fits_eq
  | false => exact Or.inr (by simpa using passes)

namespace ScopeTree

variable {tree : ScopeTree}

/-! ## What tests and checks tell -/

theorem not_refuse {α : Type} {node mentioned : Handle} {defect : Caption → Defect} {value : α} :
    tree.refuse node defect mentioned ≠ .ok value := by
  rw [refuse]
  cases tree.caption mentioned <;> simp [bind, Except.bind, throw, throwThe, MonadExceptOf.throw]

theorem parent_of_holder {node parent : Handle} (holder_eq : tree.holder node = .ok parent) :
    tree.parent node = .ok (some parent) := by
  rw [holder] at holder_eq
  obtain ⟨found, found_eq, holder_eq⟩ := bind_eq_ok_iff.mp holder_eq
  cases found with
  | none => exact absurd holder_eq not_refuse
  | some above => rw [found_eq, Except.ok.inj holder_eq]

theorem kind_of_hasKind {node : Handle} {wanted : Kind}
    (passes : tree.hasKind wanted node = .ok true) :
    tree.kind node = .ok wanted := by
  obtain ⟨given, kind_eq, same⟩ := map_eq_ok_iff.mp passes
  rw [kind_eq, beq_iff_eq.mp same]

theorem hasKind_of_kind {node : Handle} {given : Kind} (kind_eq : tree.kind node = .ok given)
    (wanted : Kind) : tree.hasKind wanted node = .ok (given == wanted) := by
  rw [hasKind, kind_eq]
  rfl

theorem hasKind_self {node : Handle} {given : Kind} (kind_eq : tree.kind node = .ok given) :
    tree.hasKind given node = .ok true := by
  rw [hasKind_of_kind kind_eq, beq_self_eq_true]

theorem kind_of_isPlaced {node : Handle} {wanted : Kind} {below : Kind → Bool}
    (placed : tree.isPlaced wanted below node = .ok true) : tree.kind node = .ok wanted := by
  rw [isPlaced] at placed
  obtain ⟨fits, fits_eq, placed⟩ := bind_eq_ok_iff.mp placed
  cases fits with
  | false => simp [pure, Except.pure] at placed
  | true => exact kind_of_hasKind fits_eq

/-- The parent of a member function is a class. -/
theorem exists_klass_of_member {node : Handle}
    (member : tree.plays .memberFunction node = .ok true) :
    ∃ parent, tree.parent node = .ok (some parent) ∧ tree.kind parent = .ok .klass := by
  rw [plays, isPlaced] at member
  obtain ⟨function, -, member⟩ := bind_eq_ok_iff.mp member
  cases function with
  | false => simp [pure, Except.pure] at member
  | true =>
      rw [if_pos rfl, parentKind] at member
      obtain ⟨given, given_eq, member⟩ := bind_eq_ok_iff.mp member
      obtain ⟨named, parent_eq, given_eq⟩ := bind_eq_ok_iff.mp given_eq
      cases named with
      | none =>
          obtain rfl : none = given := Except.ok.inj given_eq
          simp [pure, Except.pure] at member
      | some parent =>
          refine ⟨parent, parent_eq, ?_⟩
          obtain ⟨kind, kind_eq, rfl⟩ := map_eq_ok_iff.mp given_eq
          have same : kind = .klass := by simpa [pure, Except.pure] using member
          rw [kind_eq, same]

theorem kind_of_member {node parent : Handle} (parent_eq : tree.parent node = .ok (some parent))
    (member : tree.plays .memberFunction node = .ok true) : tree.kind parent = .ok .klass := by
  obtain ⟨other, other_eq, klass⟩ := exists_klass_of_member member
  obtain rfl : parent = other := Option.some.inj (Except.ok.inj (parent_eq.symm.trans other_eq))
  exact klass

theorem kind_of_localFunction {node : Handle} (inner : tree.plays .localFunction node = .ok true) :
    tree.kind node = .ok .function := by
  rw [plays] at inner
  obtain ⟨fits, fits_eq, inner⟩ := bind_eq_ok_iff.mp inner
  cases fits with
  | false => simp [pure, Except.pure] at inner
  | true => exact kind_of_hasKind fits_eq

theorem isAnonymous_of_lambda {node : Handle} (lambda : tree.kind node = .ok .lambda) :
    tree.isAnonymous node = .ok true := by
  rw [isAnonymous, Test.either, hasKind_self lambda]
  rfl

theorem isAnonymous_of_localFunction {node : Handle}
    (inner : tree.plays .localFunction node = .ok true) : tree.isAnonymous node = .ok true := by
  rw [isAnonymous, Test.either, hasKind_of_kind (kind_of_localFunction inner)]
  exact inner

theorem isBase_of_klass {node : Handle} (klass : tree.kind node = .ok .klass) :
    tree.isBase node = .ok true := by
  rw [isBase, Test.either, hasKind_of_kind klass]
  rfl

/-- A class is the nearest base around what it holds. -/
theorem nearestAbove_isBase_of_klass {node parent : Handle}
    (parent_eq : tree.parent node = .ok (some parent)) (klass : tree.kind parent = .ok .klass) :
    tree.nearestAbove tree.isBase node = .ok (some parent) := by
  rw [nearestAbove_of_parent _ parent_eq, nearestFrom_of_passes (isBase_of_klass klass)]

end ScopeTree

namespace Resolution

open ScopeTree

variable {tree : ScopeTree}

/-! ## Rules by kind -/

theorem liftM_ok {α : Type} (value : α) :
    (liftM (Except.ok value : Except Fault α) : Inquiry α) = pure value := rfl

theorem ofNode_klass {around : Handle → Inquiry Resolution} {node : Handle}
    (kind_eq : tree.kind node = .ok .klass) :
    ofNode tree around node = liftM (ofClass tree node) := by
  rw [ofNode, kind_eq]
  rfl

theorem ofNode_function {around : Handle → Inquiry Resolution} {node : Handle}
    (kind_eq : tree.kind node = .ok .function) :
    ofNode tree around node = ofFunction tree around node := by
  rw [ofNode, kind_eq]
  rfl

theorem ofNode_lambda {around : Handle → Inquiry Resolution} {node : Handle}
    (kind_eq : tree.kind node = .ok .lambda) :
    ofNode tree around node = ofAnonymous tree around node := by
  rw [ofNode, kind_eq]
  rfl

/-! ## Plain tags -/

theorem caption_of_plain {node : Handle} {tag : String}
    (kind_eq : tree.kind node = .ok (.unknown tag)) :
    tree.caption node = .error .untitledKind := by
  rw [caption, title, kind_eq]
  rfl

theorem refuse_of_plain {α : Type} {node mentioned : Handle} {tag : String}
    {defect : Caption → Defect} (kind_eq : tree.kind mentioned = .ok (.unknown tag)) :
    (tree.refuse node defect mentioned : Except Fault α) = .error .untitledKind := by
  rw [refuse, caption_of_plain kind_eq]
  rfl

/-- A plain tag is not one of the five kinds. -/
theorem hasKind_of_plain {node : Handle} {tag title : String}
    (kind_eq : tree.kind node = .ok (.unknown tag)) (wanted : Kind)
    (titled : wanted.title? = some title) : tree.hasKind wanted node = .ok false := by
  rw [hasKind_of_kind kind_eq, beq_false_of_ne]
  rintro rfl
  contradiction

theorem isPlaced_of_plain {node : Handle} {tag title : String} {below : Kind → Bool}
    (kind_eq : tree.kind node = .ok (.unknown tag)) (wanted : Kind)
    (titled : wanted.title? = some title) : tree.isPlaced wanted below node = .ok false := by
  rw [isPlaced, hasKind_of_plain kind_eq wanted titled]
  rfl

/-- A plain tag plays no role. -/
theorem plays_of_plain {node : Handle} {tag : String}
    (kind_eq : tree.kind node = .ok (.unknown tag)) (role : Role) :
    tree.plays role node = .ok false := by
  cases role with
  | topLevelClass => exact isPlaced_of_plain kind_eq .klass rfl
  | topLevelFunction | memberFunction => exact isPlaced_of_plain kind_eq .function rfl
  | localFunction =>
      change (tree.hasKind .function node >>= _) = _
      rw [hasKind_of_plain kind_eq .function rfl]
      rfl

/-- Why a node whose kind is a plain tag has no name.  The rules that go by the spelling find that
the node itself is none of the five kinds: no chain of classes starts with it, it is numbered
nowhere, and it cannot be mentioned. -/
def plainFault (tree : ScopeTree) (node : Handle) (tag : String) : Fault :=
  match Kind.ofTag tag with
  | .klass => .emptyChain
  | .lambda =>
      match tree.nearestAbove tree.isBase node with
      | .error fault => fault
      | .ok _ => .untitledKind
  | .file | .package | .function => .untitledKind
  | .unknown other => .misfit node (.unknownKind other)

theorem isAnonymous_of_plain {node : Handle} {tag : String}
    (kind_eq : tree.kind node = .ok (.unknown tag)) : tree.isAnonymous node = .ok false := by
  rw [isAnonymous, Test.either, hasKind_of_plain kind_eq .lambda rfl]
  exact plays_of_plain kind_eq .localFunction

theorem indexOf_of_plain {node : Handle} {tag : String}
    (kind_eq : tree.kind node = .ok (.unknown tag)) :
    tree.indexOf node = .fail .untitledKind := by
  rw [indexOf, isAnonymous_of_plain kind_eq, caption_of_plain kind_eq]
  rfl

theorem ofClass_of_plain {node : Handle} {tag : String}
    (kind_eq : tree.kind node = .ok (.unknown tag)) :
    ofClass tree node = .error .emptyChain := by
  rw [ofClass, classChain, ancestorsAndSelf, climb, Walk.takeWhileM,
    hasKind_of_plain kind_eq .klass rfl]
  rfl

theorem ofFunction_of_plain {around : Handle → Inquiry Resolution} {node : Handle} {tag : String}
    (kind_eq : tree.kind node = .ok (.unknown tag)) :
    ofFunction tree around node = .fail .untitledKind := by
  obtain ⟨record, record_eq, -⟩ := map_eq_ok_iff.mp kind_eq
  have parent_eq : tree.parent node = .ok record.parent :=
    map_eq_ok_iff.mpr ⟨record, record_eq, rfl⟩
  rw [ofFunction, holder, parent_eq]
  cases record.parent with
  | none =>
      change Inquiry.andThen (liftM (tree.refuse node .noParent node : Except Fault Handle)) _ = _
      rw [refuse_of_plain kind_eq]
      rfl
  | some parent =>
      rw [plays_of_plain kind_eq, plays_of_plain kind_eq, plays_of_plain kind_eq,
        caption_of_plain kind_eq]
      rfl

theorem ofAnonymous_of_plain {around : Handle → Inquiry Resolution} {node : Handle} {tag : String}
    (kind_eq : tree.kind node = .ok (.unknown tag)) :
    ofAnonymous tree around node =
      .fail (match tree.nearestAbove tree.isBase node with
        | .error fault => fault
        | .ok _ => .untitledKind) := by
  rw [ofAnonymous]
  cases tree.nearestAbove tree.isBase node with
  | error fault => rfl
  | ok found =>
      cases found with
      | none =>
          change (liftM (tree.refuse node .noBase node : Except Fault Resolution) :
            Inquiry Resolution) = _
          rw [refuse_of_plain kind_eq]
          rfl
      | some base =>
          change (tree.indexOf node >>= _) = _
          rw [indexOf_of_plain kind_eq]
          rfl

/-- A plain tag gets no name, however it is spelled. -/
theorem ofNode_plain {around : Handle → Inquiry Resolution} {node : Handle} {tag : String}
    (kind_eq : tree.kind node = .ok (.unknown tag)) :
    ofNode tree around node = .fail (plainFault tree node tag) := by
  rw [ofNode, kind_eq, liftM_ok, pure_bind, Kind.spelled, Kind.tag, plainFault]
  cases Kind.ofTag tag with
  | klass =>
      rw [ofClass_of_plain kind_eq]
      rfl
  | function => exact ofFunction_of_plain kind_eq
  | lambda => exact ofAnonymous_of_plain kind_eq
  | file | package =>
      rw [caption_of_plain kind_eq]
      rfl
  | unknown other => rfl

/-! ## Rounds -/

theorem ofAnonymous_congr {around other : Handle → Inquiry Resolution} {node : Handle}
    (agree : ∀ base, tree.nearestAbove tree.isBase node = .ok (some base) →
      around base = other base) :
    ofAnonymous tree around node = ofAnonymous tree other node := by
  rw [ofAnonymous, ofAnonymous]
  cases nearest : tree.nearestAbove tree.isBase node with
  | error fault => rfl
  | ok found =>
      cases found with
      | none => rfl
      | some base => simp only [liftM_ok, pure_bind, agree base nearest]

theorem holder_eq {node parent : Handle} (parent_eq : tree.parent node = .ok (some parent)) :
    tree.holder node = .ok parent := by
  rw [holder, parent_eq]
  rfl

theorem ofFunction_congr {around other : Handle → Inquiry Resolution} {node : Handle}
    (agree : ∀ base, tree.nearestAbove tree.isBase node = .ok (some base) →
      around base = other base) :
    ofFunction tree around node = ofFunction tree other node := by
  rw [ofFunction, ofFunction, ofAnonymous_congr agree]
  cases holder_eq : tree.holder node with
  | error fault => rfl
  | ok parent =>
      cases member : tree.plays .memberFunction node with
      | error fault => rfl
      | ok passes =>
          cases passes with
          | false => rfl
          | true =>
              have parent_eq := parent_of_holder holder_eq
              have nearest :=
                nearestAbove_isBase_of_klass parent_eq (kind_of_member parent_eq member)
              simp only [liftM_ok, pure_bind, agree parent nearest]

/-- The resolution of a node asks only for that of the nearest base around it. -/
theorem ofNode_congr {around other : Handle → Inquiry Resolution} {node : Handle}
    (agree : ∀ base, tree.nearestAbove tree.isBase node = .ok (some base) →
      around base = other base) :
    ofNode tree around node = ofNode tree other node := by
  cases kind_eq : tree.kind node with
  | error fault =>
      rw [ofNode, ofNode, kind_eq]
      rfl
  | ok kind =>
      cases kind with
      | klass => rw [ofNode_klass kind_eq, ofNode_klass kind_eq]
      | function => rw [ofNode_function kind_eq, ofNode_function kind_eq, ofFunction_congr agree]
      | lambda => rw [ofNode_lambda kind_eq, ofNode_lambda kind_eq, ofAnonymous_congr agree]
      | file | package =>
          rw [ofNode, ofNode, kind_eq]
          rfl
      | unknown tag => rw [ofNode_plain kind_eq, ofNode_plain kind_eq]

theorem ofFunction_of_topLevel {around : Handle → Inquiry Resolution} {node : Handle}
    (top : tree.plays .topLevelFunction node = .ok true) :
    ofFunction tree around node =
      (do
        let _ ← tree.holder node
        let path ← tree.packageAround node
        let name ← tree.fileClassAround node
        pure { name := path ++ name, rule := .topLevelFunction, index := none, base := none }) := by
  rw [ofFunction, top]
  rfl

/-- A base is a class, a function of a file or package, or a function of a class. -/
theorem isBase_cases_of_passes {node : Handle} (base : tree.isBase node = .ok true) :
    tree.kind node = .ok .klass ∨ tree.plays .topLevelFunction node = .ok true ∨
      tree.plays .memberFunction node = .ok true := by
  exact (Test.passes_of_either base).imp kind_of_hasKind Test.passes_of_either

/-- For a base it makes no difference what there is beyond two rounds. -/
theorem ofNode_of_isBase {node : Handle} (base : tree.isBase node = .ok true)
    (around other : Handle → Inquiry Resolution) :
    ofNode tree (ofNode tree around) node = ofNode tree (ofNode tree other) node := by
  rcases isBase_cases_of_passes base with klass | top | member
  · rw [ofNode_klass klass, ofNode_klass klass]
  · rw [ofNode_function (kind_of_isPlaced top), ofNode_function (kind_of_isPlaced top),
      ofFunction_of_topLevel top, ofFunction_of_topLevel top]
  · obtain ⟨parent, parent_eq, klass⟩ := exists_klass_of_member member
    apply ofNode_congr
    intro other nearest
    rw [nearestAbove_isBase_of_klass parent_eq klass] at nearest
    rw [← Option.some.inj (Except.ok.inj nearest), ofNode_klass klass, ofNode_klass klass]

/-- A base is resolved in two rounds. -/
theorem within_of_isBase {node : Handle} (base : tree.isBase node = .ok true) (rounds : Nat) :
    within tree (rounds + 2) node = within tree 2 node :=
  ofNode_of_isBase base (within tree rounds) (within tree 0)

end Resolution

namespace ScopeTree

open Resolution

variable {tree : ScopeTree}

/-- A node is resolved by its rule with the resolutions of the nodes around it. -/
theorem resolve_eq (tree : ScopeTree) (node : Handle) :
    tree.resolve node = ofNode tree tree.resolve node := by
  rw [resolve, within]
  apply ofNode_congr
  intro base nearest
  rw [resolve, within_of_isBase (Walk.mem_visited_of_findM? nearest).2 1]

/-- A lambda is resolved by the rule for anonymous classes, and so is a local function that is in no
file or package itself. -/
theorem resolve_of_anonymous {node parent : Handle} (anonymous : tree.isAnonymous node = .ok true)
    (below : tree.plays .topLevelFunction node = .ok false)
    (parent_eq : tree.parent node = .ok (some parent)) :
    tree.resolve node = ofAnonymous tree tree.resolve node := by
  rw [resolve_eq]
  rcases Test.passes_of_either anonymous with lambda | inner
  · rw [ofNode_lambda (kind_of_hasKind lambda)]
  · rw [ofNode_function (kind_of_localFunction inner), ofFunction, holder_eq parent_eq, below,
      inner]
    rfl

end ScopeTree

end BinaryName
