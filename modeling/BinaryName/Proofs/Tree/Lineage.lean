import BinaryName.Resolution
import BinaryName.Proofs.Decl.Planted
import BinaryName.Proofs.Tree.Acyclic

/-!
# Lineages

In a tree whose parents come before their children every walk upwards comes to a stop, and it meets
the same kinds whatever the bound on its length.  These kinds, the lineage of a node, decide every
role, so a search for the nearest ancestor with a role is a search in a list of kinds.
-/

namespace BinaryName

theorem bind_eq_ok_iff {ε α β : Type} {first : Except ε α} {next : α → Except ε β} {value : β} :
    first >>= next = .ok value ↔ ∃ met, first = .ok met ∧ next met = .ok value := by
  cases first <;> simp [bind, Except.bind]

theorem bind_eq_error_iff {ε α β : Type} {first : Except ε α} {next : α → Except ε β} {fault : ε} :
    first >>= next = .error fault ↔
      first = .error fault ∨ ∃ met, first = .ok met ∧ next met = .error fault := by
  cases first <;> simp [bind, Except.bind]

/-! ## Roles of lineages -/

/-- The lineage is that of a node with the role: its kind comes first, the kind of its parent
second. -/
def Role.fits : Role → List Kind → Bool
  | _, [] => false
  | .topLevelClass, kind :: above => kind == .klass && above.head?.any Kind.isContainer
  | .topLevelFunction, kind :: above => kind == .function && above.head?.any Kind.isContainer
  | .memberFunction, kind :: above => kind == .function && above.head? == some .klass
  | .localFunction, kind :: above => kind == .function && above.contains .function

/-- What a node with the role declares. -/
def Role.kind : Role → Kind
  | .topLevelClass => .klass
  | .topLevelFunction | .memberFunction | .localFunction => .function

theorem Role.head?_of_fits {role : Role} {line : List Kind} (fits : role.fits line = true) :
    line.head? = some role.kind := by
  cases line with
  | nil => simp [Role.fits] at fits
  | cons kind above =>
      cases role <;> simp only [Role.fits, Bool.and_eq_true, beq_iff_eq] at fits <;>
        rw [fits.1] <;> rfl

theorem Role.not_fits_of_fits {role other : Role} {line : List Kind} (fits : role.fits line = true)
    (differ : role.kind ≠ other.kind) : other.fits line = false := by
  rw [Bool.eq_false_iff]
  intro also
  have same := (head?_of_fits fits).symm.trans (head?_of_fits also)
  exact differ (Option.some.inj same)

namespace Lineage

/-- The lineage is that of a top-level declaration. -/
def isTopLevel (line : List Kind) : Bool :=
  Role.topLevelClass.fits line || Role.topLevelFunction.fits line

/-- The lineage is that of a class, or of a function of a file or of a class. -/
def isBase (line : List Kind) : Bool :=
  line.head? == some .klass ||
    (Role.topLevelFunction.fits line || Role.memberFunction.fits line)

/-- The lineage is that of a lambda or local function. -/
def isAnonymous (line : List Kind) : Bool :=
  line.head? == some .lambda || Role.localFunction.fits line

/-- The first of the lineages that end a list of kinds which passes a test. -/
def nearest (test : List Kind → Bool) : List Kind → Option (List Kind)
  | [] => none
  | kind :: above => if test (kind :: above) then some (kind :: above) else nearest test above

theorem passes_of_nearest {test : List Kind → Bool} {line found : List Kind}
    (nearest_eq : nearest test line = some found) : test found = true := by
  induction line with
  | nil => simp [nearest] at nearest_eq
  | cons kind above ih =>
      rw [nearest] at nearest_eq
      split at nearest_eq
      · next passes => rwa [← Option.some.inj nearest_eq]
      · exact ih nearest_eq

theorem isSome_nearest_kind (wanted : Kind) (line : List Kind) :
    (nearest (fun line => line.head? == some wanted) line).isSome = line.contains wanted := by
  induction line with
  | nil => rfl
  | cons kind above ih =>
      rw [nearest, List.contains_cons, ← ih, List.head?_cons]
      by_cases same : kind = wanted
      · simp [same]
      · have other : wanted ≠ kind := fun equal => same equal.symm
        simp [same, other]

end Lineage

theorem Lineage.not_topLevelClass_of_isAnonymous {line : List Kind}
    (counted : isAnonymous line = true) : Role.topLevelClass.fits line = false := by
  rw [isAnonymous, Bool.or_eq_true, beq_iff_eq] at counted
  rw [Bool.eq_false_iff]
  intro klass
  rcases counted with lambda | function
  · simp [Role.head?_of_fits klass, Role.kind] at lambda
  · have other : Role.kind .topLevelClass ≠ Role.kind .localFunction := by decide
    simp [Role.not_fits_of_fits klass other] at function

namespace ScopeTree

/-- The kinds of a node and of its ancestors, nearest first. -/
def lineage (tree : ScopeTree) (node : Handle) : List Kind :=
  (tree.ancestorsAndSelf node).visited.filterMap fun node => (tree.kind node).toOption

/-- Every node but a root has a parent before it. -/
def Ordered (tree : ScopeTree) : Prop :=
  ∀ node : Nat, node < tree.size → tree.parent (node : Int) = .ok none ∨
    ∃ parent : Nat, parent < node ∧ tree.parent (node : Int) = .ok (some (parent : Int))

variable {tree : ScopeTree}

theorem Ordered.loopless (ordered : tree.Ordered) : Loopless tree.NamesParent := by
  apply loopless_of_measure Fin.val
  intro here there named
  have record_eq := tree.record_natCast here.isLt
  rcases ordered here here.isLt with root_eq | ⟨parent, parent_lt, parent_eq⟩
  · rw [parent, record_eq] at root_eq
    have none_eq : tree.records[(here : Nat)].parent = none := Except.ok.inj root_eq
    simp [NamesParent, none_eq] at named
  · rw [ScopeTree.parent, record_eq] at parent_eq
    have some_eq : tree.records[(here : Nat)].parent = some (parent : Int) :=
      Except.ok.inj parent_eq
    have parent_inside := Nat.lt_trans parent_lt here.isLt
    simp only [NamesParent, Fin.getElem_fin, some_eq, Option.bind_some,
      tree.position?_natCast parent_inside, Option.some.injEq] at named
    rwa [← named]

/-! ## The kinds above a node -/

theorem kind_natCast (tree : ScopeTree) {node : Nat} (inside : node < tree.size) :
    tree.kind (node : Int) = .ok tree.records[node].kind := by
  rw [kind, tree.record_natCast inside]
  rfl

theorem lineage_of_root (ordered : tree.Ordered) {node : Nat} (inside : node < tree.size)
    (parent_eq : tree.parent (node : Int) = .ok none) :
    tree.lineage node = [tree.records[node].kind] := by
  rw [lineage, ancestorsAndSelf_eq ordered.loopless, ancestors_of_root parent_eq]
  simp [Walk.visited, kind_natCast tree inside, Except.toOption]

theorem lineage_of_parent (ordered : tree.Ordered) {node : Nat} (inside : node < tree.size)
    {parent : Handle} (parent_eq : tree.parent (node : Int) = .ok (some parent)) :
    tree.lineage node = tree.records[node].kind :: tree.lineage parent := by
  rw [lineage, ancestorsAndSelf_eq ordered.loopless, ancestors_of_parent parent_eq]
  simp [Walk.visited, kind_natCast tree inside, Except.toOption, lineage]

/-- A node is a root of which only the kind is to be seen, or it adds its kind to the lineage of its
parent. -/
theorem lineage_cases (ordered : tree.Ordered) {node : Nat} (inside : node < tree.size) :
    tree.parent (node : Int) = .ok none ∧ tree.lineage node = [tree.records[node].kind] ∨
      ∃ parent : Nat, parent < node ∧ tree.parent (node : Int) = .ok (some (parent : Int)) ∧
        tree.lineage node = tree.records[node].kind :: tree.lineage parent := by
  rcases ordered node inside with parent_eq | ⟨parent, parent_lt, parent_eq⟩
  · exact Or.inl ⟨parent_eq, lineage_of_root ordered inside parent_eq⟩
  · exact Or.inr ⟨parent, parent_lt, parent_eq, lineage_of_parent ordered inside parent_eq⟩

theorem head?_lineage (ordered : tree.Ordered) {node : Nat} (inside : node < tree.size) :
    (tree.lineage node).head? = some tree.records[node].kind := by
  rcases lineage_cases ordered inside with ⟨-, line⟩ | ⟨parent, -, -, line⟩ <;> rw [line] <;> rfl

/-- A node with a role has a parent. -/
theorem exists_parent_of_fits (ordered : tree.Ordered) {node : Nat} (inside : node < tree.size)
    {role : Role} (fits : role.fits (tree.lineage node) = true) :
    ∃ parent : Nat, parent < node ∧ tree.parent (node : Int) = .ok (some (parent : Int)) ∧
      tree.lineage node = role.kind :: tree.lineage parent := by
  rcases lineage_cases ordered inside with ⟨-, line⟩ | ⟨parent, parent_lt, parent_eq, line⟩
  · cases role <;> simp [line, Role.fits] at fits
  · have head_eq := Role.head?_of_fits fits
    rw [line, List.head?_cons] at head_eq
    exact ⟨parent, parent_lt, parent_eq, by rw [line, Option.some.inj head_eq]⟩

theorem kind_of_head? (ordered : tree.Ordered) {node : Nat} (inside : node < tree.size)
    {kind : Kind}
    (head_eq : (tree.lineage node).head? = some kind) : tree.kind (node : Int) = .ok kind := by
  rw [head?_lineage ordered inside] at head_eq
  rw [kind_natCast tree inside, Option.some.inj head_eq]

theorem head?_of_kind (ordered : tree.Ordered) {node : Nat} (inside : node < tree.size)
    {kind : Kind}
    (kind_eq : tree.kind (node : Int) = .ok kind) : (tree.lineage node).head? = some kind := by
  rw [kind_natCast tree inside] at kind_eq
  rw [head?_lineage ordered inside, Except.ok.inj kind_eq]

/-! ## Tests that lineages decide -/

/-- The test never fails, and it depends on the lineage of the node alone. -/
def Judges (tree : ScopeTree) (test : Test) (verdict : List Kind → Bool) : Prop :=
  ∀ node : Nat, node < tree.size → test (node : Int) = .ok (verdict (tree.lineage node))

theorem Judges.of_verdict {test : Test} {verdict : List Kind → Bool}
    (judges : tree.Judges test verdict) {node : Nat} (inside : node < tree.size) {passes : Bool}
    (verdict_eq : verdict (tree.lineage node) = passes) : test (node : Int) = .ok passes :=
  (judges node inside).trans (congrArg _ verdict_eq)

theorem judges_hasKind (ordered : tree.Ordered) (wanted : Kind) :
    tree.Judges (tree.hasKind wanted) fun line => line.head? == some wanted := by
  intro node inside
  rw [hasKind, kind_natCast tree inside]
  simp [head?_lineage ordered inside, Except.map]

theorem hasKind_eq (ordered : tree.Ordered) {node : Nat} (inside : node < tree.size)
    (wanted : Kind) :
    tree.hasKind wanted (node : Int) = .ok ((tree.lineage node).head? == some wanted) :=
  judges_hasKind ordered wanted node inside

theorem Judges.either {first second : Test} {one other : List Kind → Bool}
    (judges : tree.Judges first one) (also : tree.Judges second other) :
    tree.Judges (.either first second) fun line => one line || other line := by
  intro node inside
  rw [Test.either, judges node inside]
  cases verdict : one (tree.lineage node)
  · exact (also node inside).trans (by simp [verdict])
  · simp [verdict, bind, Except.bind, pure, Except.pure]

theorem judges_isPlaced (ordered : tree.Ordered) (wanted : Kind) (below : Kind → Bool) :
    tree.Judges (tree.isPlaced wanted below) fun line =>
      line.head? == some wanted && line.tail.head?.any below := by
  intro node inside
  have kind_test := judges_hasKind ordered wanted node inside
  have parent_kind : tree.parentKind node = .ok (tree.lineage node).tail.head? := by
    rcases lineage_cases ordered inside with ⟨parent_eq, line⟩ | ⟨parent, lt, parent_eq, line⟩
    · rw [parentKind, parent_eq, line]
      rfl
    · have parent_inside : parent < tree.size := by omega
      rw [parentKind, parent_eq, line, List.tail_cons, head?_lineage ordered parent_inside]
      simp [bind, Except.bind, kind_natCast tree parent_inside, Functor.map, Except.map]
  rw [isPlaced, kind_test]
  cases verdict : (tree.lineage node).head? == some wanted <;>
    simp [verdict, parent_kind, bind, Except.bind, pure, Except.pure]

theorem Judges.nearestFrom_of_passes {test : Test} {verdict : List Kind → Bool}
    (judges : tree.Judges test verdict) (ordered : tree.Ordered) {node : Nat}
    (inside : node < tree.size) (passes : verdict (tree.lineage node) = true) :
    tree.nearestFrom test (node : Int) = .ok (some (node : Int)) := by
  rw [nearestFrom_eq ordered.loopless, judges node inside, passes]
  rfl

theorem Judges.nearestFrom_of_fails {test : Test} {verdict : List Kind → Bool}
    (judges : tree.Judges test verdict) (ordered : tree.Ordered) {node : Nat}
    (inside : node < tree.size) (fails : verdict (tree.lineage node) = false) :
    tree.nearestFrom test (node : Int) = tree.nearestAbove test (node : Int) := by
  rw [nearestFrom_eq ordered.loopless, judges node inside, fails]
  rfl

/-- What holds at a node that passes the test, and goes down from parents to children that fail it,
holds wherever the search upwards ends at that node. -/
theorem Judges.nearestFrom_induction {test : Test} {verdict : List Kind → Bool}
    (judges : tree.Judges test verdict) (ordered : tree.Ordered) {found : Nat} {motive : Nat → Prop}
    (here : motive found)
    (below : ∀ node parent : Nat, node < tree.size → found ≤ parent → parent < node →
      tree.parent (node : Int) = .ok (some (parent : Int)) → verdict (tree.lineage node) = false →
      motive parent → motive node) {node : Nat} (inside : node < tree.size)
    (nearest_eq : tree.nearestFrom test (node : Int) = .ok (some (found : Int))) :
    found ≤ node ∧ motive node := by
  induction node using Nat.strongRecOn with
  | ind node ih =>
      cases passes : verdict (tree.lineage node) with
      | true =>
          rw [judges.nearestFrom_of_passes ordered inside passes] at nearest_eq
          obtain rfl : node = found :=
            Int.ofNat_inj.mp (Option.some.inj (Except.ok.inj nearest_eq))
          exact ⟨Nat.le_refl _, here⟩
      | false =>
          rw [judges.nearestFrom_of_fails ordered inside passes] at nearest_eq
          rcases ordered node inside with root_eq | ⟨parent, parent_lt, parent_eq⟩
          · simp [nearestAbove_of_root _ root_eq] at nearest_eq
          · rw [nearestAbove_of_parent _ parent_eq] at nearest_eq
            obtain ⟨found_le, holds⟩ := ih parent parent_lt (by omega) nearest_eq
            exact ⟨by omega, below node parent inside found_le parent_lt parent_eq passes holds⟩

/-- The nearest ancestor that passes a test has the nearest lineage that passes it. -/
theorem Judges.nearestAbove {test : Test} {verdict : List Kind → Bool}
    (judges : tree.Judges test verdict) (ordered : tree.Ordered) {node : Nat}
    (inside : node < tree.size) :
    tree.nearestAbove test (node : Int) = .ok none ∧
        Lineage.nearest verdict (tree.lineage node).tail = none ∨
      ∃ found : Nat, found < node ∧ tree.nearestAbove test (node : Int) = .ok (some (found : Int)) ∧
        Lineage.nearest verdict (tree.lineage node).tail = some (tree.lineage found) := by
  induction node using Nat.strongRecOn with
  | ind node ih =>
      rcases lineage_cases ordered inside with ⟨parent_eq, line⟩ | ⟨parent, lt, parent_eq, line⟩
      · refine Or.inl ⟨nearestAbove_of_root test parent_eq, ?_⟩
        rw [line, List.tail_cons, Lineage.nearest]
      · have parent_inside : parent < tree.size := by omega
        obtain ⟨above, parent_line⟩ :=
          List.head?_eq_some_iff.mp (head?_lineage ordered parent_inside)
        rw [nearestAbove_of_parent test parent_eq, line, List.tail_cons]
        cases passes : verdict (tree.lineage parent) with
        | true =>
            refine Or.inr
              ⟨parent, lt, judges.nearestFrom_of_passes ordered parent_inside passes, ?_⟩
            rw [parent_line] at passes ⊢
            rw [Lineage.nearest, passes, if_pos rfl]
        | false =>
            rw [judges.nearestFrom_of_fails ordered parent_inside passes]
            have further : Lineage.nearest verdict (tree.lineage parent) =
                Lineage.nearest verdict (tree.lineage parent).tail := by
              rw [parent_line] at passes ⊢
              rw [Lineage.nearest, passes, if_neg Bool.false_ne_true, List.tail_cons]
            rw [further]
            rcases ih parent lt parent_inside with
              none_found | ⟨found, found_lt, found_eq, found_line⟩
            · exact Or.inl none_found
            · exact Or.inr ⟨found, by omega, found_eq, found_line⟩

theorem Judges.of_nearestAbove {test : Test} {verdict : List Kind → Bool}
    (judges : tree.Judges test verdict) (ordered : tree.Ordered) {node : Nat} {found : Handle}
    (inside : node < tree.size)
    (nearest_eq : tree.nearestAbove test (node : Int) = .ok (some found)) :
    ∃ place : Nat, found = place ∧ place < node ∧ verdict (tree.lineage place) = true ∧
      Lineage.nearest verdict (tree.lineage node).tail = some (tree.lineage place) := by
  rcases judges.nearestAbove ordered inside with ⟨none_eq, -⟩ | ⟨place, lt, place_eq, line⟩
  · rw [nearest_eq] at none_eq
    simp at none_eq
  · rw [nearest_eq] at place_eq
    exact ⟨place, Option.some.inj (Except.ok.inj place_eq), lt, Lineage.passes_of_nearest line,
      line⟩

theorem Judges.of_nearestAbove_natCast {test : Test} {verdict : List Kind → Bool}
    (judges : tree.Judges test verdict) (ordered : tree.Ordered) {node found : Nat}
    (inside : node < tree.size)
    (nearest_eq : tree.nearestAbove test (node : Int) = .ok (some (found : Int))) :
    found < node ∧ verdict (tree.lineage found) = true ∧
      Lineage.nearest verdict (tree.lineage node).tail = some (tree.lineage found) := by
  obtain ⟨place, same, place_lt, passes, line⟩ := judges.of_nearestAbove ordered inside nearest_eq
  obtain rfl : found = place := Int.ofNat_inj.mp same
  exact ⟨place_lt, passes, line⟩

theorem judges_isInside (ordered : tree.Ordered) (wanted : Kind) :
    tree.Judges (tree.isInside wanted) fun line => line.tail.contains wanted := by
  intro node inside
  rw [isInside]
  simp only [← Lineage.isSome_nearest_kind]
  rcases (judges_hasKind ordered wanted).nearestAbove ordered inside with
    ⟨none_eq, no_line⟩ | ⟨found, -, found_eq, found_line⟩
  · rw [none_eq, no_line]
    rfl
  · rw [found_eq, found_line]
    rfl

theorem judges_plays (ordered : tree.Ordered) (role : Role) :
    tree.Judges (tree.plays role) role.fits := by
  intro node inside
  cases role with
  | topLevelClass =>
      rw [plays, judges_isPlaced ordered _ _ node inside]
      cases tree.lineage node <;> rfl
  | topLevelFunction =>
      rw [plays, judges_isPlaced ordered _ _ node inside]
      cases tree.lineage node <;> rfl
  | memberFunction =>
      rw [plays, judges_isPlaced ordered _ _ node inside]
      rcases tree.lineage node with _ | ⟨kind, _ | ⟨above, rest⟩⟩ <;>
        simp [Role.fits]
  | localFunction =>
      rw [plays]
      simp only [judges_hasKind ordered _ node inside, judges_isInside ordered _ node inside]
      rcases tree.lineage node with _ | ⟨kind, above⟩
      · rfl
      · by_cases function : kind = .function <;>
          simp [function, Role.fits, bind, Except.bind, pure, Except.pure]

theorem judges_isTopLevel (ordered : tree.Ordered) :
    tree.Judges tree.isTopLevel Lineage.isTopLevel :=
  (judges_plays ordered .topLevelClass).either (judges_plays ordered .topLevelFunction)

theorem judges_isNonlocal (ordered : tree.Ordered) :
    tree.Judges tree.isNonlocal fun line =>
      Role.topLevelFunction.fits line || Role.memberFunction.fits line :=
  (judges_plays ordered .topLevelFunction).either (judges_plays ordered .memberFunction)

theorem judges_isBase (ordered : tree.Ordered) : tree.Judges tree.isBase Lineage.isBase :=
  (judges_hasKind ordered .klass).either (judges_isNonlocal ordered)

theorem judges_isAnonymous (ordered : tree.Ordered) :
    tree.Judges tree.isAnonymous Lineage.isAnonymous :=
  (judges_hasKind ordered .lambda).either (judges_plays ordered .localFunction)

end ScopeTree

/-! ## Trees that have been laid out -/

theorem Decl.Fills.ordered {decl : Decl} {tree : ScopeTree} (fills : decl.Fills tree) :
    tree.Ordered := by
  intro node inside
  have node_lt : node < decl.count := by rw [← fills.size_eq]; exact inside
  by_cases first : node = 0
  · subst first
    exact Or.inl fills.planted.parent_eq
  · obtain ⟨parent, -, parent_lt, parent_eq, -⟩ :=
      listed_of_planted decl fills.planted (by omega : 0 < node) (by omega)
    exact Or.inr ⟨parent, parent_lt, parent_eq⟩

theorem Decl.Planted.lineage_eq {tree : ScopeTree} {parent start : Nat} {head : Head}
    {children : List Decl}
    (planted : (Decl.declare head children).Planted tree (some parent) start)
    (ordered : tree.Ordered) :
    tree.lineage start = head.kind :: tree.lineage parent := by
  have kind_eq := planted.kind_eq
  rw [ScopeTree.kind_natCast tree planted.lt_size] at kind_eq
  rw [ScopeTree.lineage_of_parent ordered planted.lt_size planted.parent_eq, Except.ok.inj kind_eq]
  rfl

theorem Decl.Fills.lineage_root {tree : ScopeTree} {file : Head} {children : List Decl}
    (fills : (Decl.declare file children).Fills tree) : tree.lineage (0 : Nat) = [file.kind] := by
  have inside := fills.planted.lt_size
  have kind_eq := fills.planted.kind_eq
  rw [ScopeTree.kind_natCast tree inside] at kind_eq
  rw [ScopeTree.lineage_of_root fills.ordered inside fills.planted.parent_eq, Except.ok.inj kind_eq]

end BinaryName
