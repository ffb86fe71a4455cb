import BinaryName.Proofs.Tree.Ancestors
import BinaryName.Proofs.Tree.Nesting
import BinaryName.Proofs.Tree.Scope

/-!
# Roles in grammatical files

In general the roles of a function do not exclude each other.  In a grammatical file they do: there
is a function around all code and around no class, so what holds a function fixes its role.  The
nodes of such a file have four standings, and below an anonymous class there are only anonymous
classes.
-/

namespace BinaryName

/-- The role of a function that is held by a declaration of the kind. -/
def Kind.roleHeld : Kind → Role
  | .file | .package => .topLevelFunction
  | .klass => .memberFunction
  | .function | .lambda | .unknown _ => .localFunction

theorem Kind.kind_roleHeld (holder : Kind) : holder.roleHeld.kind = .function := by
  cases holder <;> rfl

/-- What a lambda is held by is code. -/
theorem Kind.code_of_holds_lambda {parent : Kind} (holds : parent.holds .lambda = true) :
    parent = .function ∨ parent = .lambda := by
  cases parent <;> first | exact .inl rfl | exact .inr rfl | contradiction

/-- What a node is for the names in its file. -/
inductive Standing where
  /-- A file or package has no class of its own. -/
  | container
  /-- A class has a name of its own. -/
  | klass
  /-- A function of a file or of a class is named by what holds it. -/
  | nonlocal
  /-- A lambda or local function is numbered. -/
  | anonymous
  deriving DecidableEq, Repr

namespace Standing

/-- The node has the standing. -/
def test (tree : ScopeTree) : Standing → Test
  | .container => .either (tree.hasKind .file) (tree.hasKind .package)
  | .klass => tree.hasKind .klass
  | .nonlocal => tree.isNonlocal
  | .anonymous => tree.isAnonymous

/-- The lineage is that of a node with the standing. -/
def fits (line : List Kind) : Standing → Bool
  | .container => line.head? == some .file || line.head? == some .package
  | .klass => line.head? == some .klass
  | .nonlocal => Role.topLevelFunction.fits line || Role.memberFunction.fits line
  | .anonymous => Lineage.isAnonymous line

end Standing

namespace Lineage

variable {kind parent : Kind} {line above : List Kind}

/-- A function is around code, or the code is one. -/
theorem Nested.function_mem (nested : Nested (kind :: above))
    (code : kind = .function ∨ kind = .lambda) : .function ∈ kind :: above := by
  -- A lambda passes the question on to what holds it, and the outermost node is a file.
  induction above generalizing kind with
  | nil =>
      have file := nested.eq_file
      rcases code with rfl | rfl <;> contradiction
  | cons parent above ih =>
      rcases code with rfl | rfl
      · exact List.mem_cons_self
      · cases nested with
        | held holds around =>
            exact List.mem_cons_of_mem _ (ih around (Kind.code_of_holds_lambda holds))

/-- What holds a function in a nested lineage fixes its role. -/
theorem Nested.fits_eq (nested : Nested (.function :: parent :: above)) (role : Role) :
    role.fits (.function :: parent :: above) = decide (role = parent.roleHeld) := by
  cases nested with
  | held holds around =>
      cases parent with
      | file | package | klass =>
          have outside := around.function_not_mem (by simp [Kind.isContainer])
          cases role <;> simp_all [Role.fits, Kind.roleHeld, Kind.isContainer]
      | function | lambda =>
          have inside := around.function_mem (by simp)
          cases role <;> simp_all [Role.fits, Kind.roleHeld, Kind.isContainer]
      | unknown tag => contradiction

/-- A function has the standing that its role gives it. -/
theorem Nested.exists_standing_of_function (nested : Nested (.function :: parent :: above)) :
    ∃ standing : Standing, ∀ other : Standing,
      other.fits (.function :: parent :: above) = decide (other = standing) := by
  have roles := nested.fits_eq
  cases parent with
  | file | package | klass =>
      refine ⟨.nonlocal, fun other => ?_⟩
      cases other <;> simp [Standing.fits, isAnonymous, roles, Kind.roleHeld]
  | function | lambda | unknown tag =>
      refine ⟨.anonymous, fun other => ?_⟩
      cases other <;> simp [Standing.fits, isAnonymous, roles, Kind.roleHeld]

/-- Every node of a nested lineage has one standing. -/
theorem Nested.exists_standing (nested : Nested line) :
    ∃ standing : Standing, ∀ other : Standing, other.fits line = decide (other = standing) := by
  cases nested with
  | file => exact ⟨.container, fun other => by cases other <;> rfl⟩
  | @held kind parent above holds around =>
      cases kind with
      | function => exact (Nested.held holds around).exists_standing_of_function
      | file | package => exact ⟨.container, fun other => by cases other <;> rfl⟩
      | klass => exact ⟨.klass, fun other => by cases other <;> rfl⟩
      | lambda => exact ⟨.anonymous, fun other => by cases other <;> rfl⟩
      | unknown tag => cases parent <;> contradiction

/-- What is held by an anonymous class is one itself. -/
theorem Nested.isAnonymous_of_held (nested : Nested (kind :: above))
    (counted : isAnonymous above = true) : isAnonymous (kind :: above) = true := by
  cases nested with
  | file => simp [isAnonymous, Role.fits] at counted
  | @held _ parent above holds around =>
      have code : parent = .function ∨ parent = .lambda := by
        cases parent <;> simp_all [isAnonymous, Role.fits]
      cases kind with
      | lambda => rfl
      | function =>
          have inner : Role.localFunction = parent.roleHeld := by
            rcases code with rfl | rfl <;> rfl
          have fits := (Nested.held holds around).fits_eq .localFunction
          rw [isAnonymous, fits, decide_eq_true inner, Bool.or_true]
      | file | package | klass | unknown tag => rcases code with rfl | rfl <;> contradiction

end Lineage

namespace ScopeTree

variable {tree : ScopeTree}

theorem judges_standing (ordered : tree.Ordered) (standing : Standing) :
    tree.Judges (standing.test tree) fun line => standing.fits line := by
  cases standing with
  | container => exact (judges_hasKind ordered .file).either (judges_hasKind ordered .package)
  | klass => exact judges_hasKind ordered .klass
  | nonlocal => exact judges_isNonlocal ordered
  | anonymous => exact judges_isAnonymous ordered

/-- A function that plays one role is nonlocal exactly if it is not local. -/
theorem isNonlocal_eq_map_not {node : Handle} {role : Role} (isFunction : role.kind = .function)
    (plays_eq : ∀ other, tree.plays other node = .ok (decide (other = role))) :
    tree.isNonlocal node = (tree.plays .localFunction node).map not := by
  rw [isNonlocal, Test.either, plays_eq, plays_eq, plays_eq]
  cases role <;> first | rfl | contradiction

end ScopeTree

namespace Decl

open ScopeTree

variable {whole nest : Decl} {tree : ScopeTree} {parent : Option Nat} {root node : Nat}

/-- A function of a well nested tree is held by something. -/
theorem Fills.exists_lineage_of_function (fills : whole.Fills tree) (nested : tree.WellNested)
    (inside : node < tree.size) (kind_eq : tree.kind (node : Int) = .ok .function) :
    ∃ holder above, tree.lineage node = .function :: holder :: above := by
  obtain ⟨above, line⟩ := List.head?_eq_some_iff.mp (head?_of_kind fills.ordered inside kind_eq)
  have held := nested node inside
  rw [line] at held
  cases held with
  | held holds around => exact ⟨_, _, line⟩

/-- Everything that is kept below an anonymous class is one. -/
theorem Fills.numbers_of_kept (fills : whole.Fills tree) (nested : tree.WellNested)
    (planted : nest.Planted tree parent root) (within : root + nest.count ≤ tree.size)
    (counted : tree.numbers root = true) {skip : Handle → Bool}
    (member : (node : Int) ∈ nest.kept skip root) : tree.numbers node = true := by
  refine fills.kept_induction (motive := fun node => tree.numbers node = true) planted within
    counted ?_ member
  rintro node above inside above_lt parent_eq - above_counted
  obtain ⟨kind, outer, rest, line, above_line, -⟩ :=
    nested.lineage_of_parent fills.ordered inside above_lt parent_eq
  have held := nested node inside
  rw [numbers, above_line] at above_counted
  rw [line] at held
  rw [numbers, line]
  exact held.isAnonymous_of_held above_counted

/-- A function of a well nested tree plays one role. -/
theorem Fills.exists_role (fills : whole.Fills tree) (nested : tree.WellNested)
    (inside : node < tree.size) (kind_eq : tree.kind (node : Int) = .ok .function) :
    ∃ role : Role, role.kind = .function ∧
      ∀ other, tree.plays other (node : Int) = .ok (decide (other = role)) := by
  obtain ⟨holder, above, line⟩ := fills.exists_lineage_of_function nested inside kind_eq
  have held := nested node inside
  rw [line] at held
  refine ⟨holder.roleHeld, holder.kind_roleHeld, fun other => ?_⟩
  exact (judges_plays fills.ordered other).of_verdict inside (by rw [line, held.fits_eq])

/-- A function is nonlocal exactly if there is no function around it. -/
theorem Fills.isNonlocal_iff (fills : whole.Fills tree) (nested : tree.WellNested)
    (inside : node < tree.size) (kind_eq : tree.kind (node : Int) = .ok .function) :
    tree.isNonlocal (node : Int) = .ok true ↔
      ∀ above ∈ (tree.ancestors (node : Int)).visited, tree.kind above ≠ .ok .function := by
  have ordered := fills.ordered
  obtain ⟨role, isFunction, plays_eq⟩ := fills.exists_role nested inside kind_eq
  obtain ⟨holder, above, line⟩ := fills.exists_lineage_of_function nested inside kind_eq
  have outside_iff : (∀ above ∈ (tree.ancestors (node : Int)).visited,
      tree.kind above ≠ .ok .function) ↔ .function ∉ (tree.lineage node).tail := by
    rw [mem_tail_lineage_iff ordered inside, not_exists]
    exact forall_congr' fun above => not_and.symm
  rw [outside_iff, isNonlocal_eq_map_not isFunction plays_eq,
    judges_plays ordered .localFunction node inside, line, List.tail_cons]
  simp [Role.fits, Except.map]

/-- There is no class below an anonymous class. -/
theorem Fills.no_class_below (fills : whole.Fills tree) (nested : tree.WellNested)
    (inside : node < tree.size) (counted : tree.isAnonymous (node : Int) = .ok true) :
    ∃ nodes, (tree.preorder .never (node : Int)).nodes = .ok nodes ∧
      ∀ below ∈ nodes, tree.hasKind .klass below = .ok false := by
  have ordered := fills.ordered
  have numbers : tree.numbers node = true :=
    Except.ok.inj ((decides_numbers ordered node inside).symm.trans counted)
  obtain ⟨nest, parent, planted, within⟩ := fills.exists_planted_at inside
  refine ⟨nest.kept (fun _ => false) node, ?_, fun below member => ?_⟩
  · rw [fills.preorder_eq tree.decides_never planted within, Walk.nodes_stop_after]
  · obtain ⟨place, rfl, place_lt⟩ := Fills.exists_place_of_kept within below member
    have anonymous := fills.numbers_of_kept nested planted within numbers member
    obtain ⟨standing, fits_eq⟩ := (nested place place_lt).exists_standing
    have same : Standing.anonymous = standing :=
      of_decide_eq_true ((fits_eq .anonymous).symm.trans anonymous)
    have other : Standing.klass ≠ standing := by
      rw [← same]
      decide
    exact (judges_standing ordered .klass).of_verdict place_lt
      ((fits_eq .klass).trans (decide_eq_false other))

/-- In a grammatical file every function plays one role.  It is nonlocal exactly if it is not local,
and that is so if there is no function around it.  Every node has one standing, and there is no
class below an anonymous class. -/
theorem Grammatical.roles_exclusive {decl : Decl} (grammatical : decl.Grammatical) :
    ∃ built, decl.layout = .ok built ∧
      ∀ node ∈ built.tree.handles,
        (built.tree.kind node = .ok .function →
          (∃ role : Role, role.kind = .function ∧
            ∀ other, built.tree.plays other node = .ok (decide (other = role))) ∧
          built.tree.isNonlocal node = (built.tree.plays .localFunction node).map not ∧
          (built.tree.isNonlocal node = .ok true ↔
            ∀ above ∈ (built.tree.ancestors node).visited,
              built.tree.kind above ≠ .ok .function)) ∧
        (∃ standing : Standing, ∀ other : Standing,
          other.test built.tree node = .ok (decide (other = standing))) ∧
        (built.tree.isAnonymous node = .ok true →
          ∃ nodes, (built.tree.preorder .never node).nodes = .ok nodes ∧
            ∀ below ∈ nodes, built.tree.hasKind .klass below = .ok false) := by
  obtain ⟨built, laid⟩ := grammatical.exists_layout
  have fills := fills_of_layout laid
  have nested := grammatical.wellNested fills
  refine ⟨built, laid, fun node member => ?_⟩
  obtain ⟨place, rfl, inside⟩ := mem_handles.mp member
  refine ⟨fun function => ?_, ?_, fills.no_class_below nested inside⟩
  · obtain ⟨role, isFunction, plays_eq⟩ := fills.exists_role nested inside function
    exact ⟨⟨role, isFunction, plays_eq⟩, isNonlocal_eq_map_not isFunction plays_eq,
      fills.isNonlocal_iff nested inside function⟩
  · obtain ⟨standing, fits_eq⟩ := (nested place inside).exists_standing
    exact ⟨standing, fun other =>
      (judges_standing fills.ordered other).of_verdict inside (fits_eq other)⟩

/-- A class with a function, and a function with a lambda in a lambda and a function in there. -/
def functionInLambdas : Decl :=
  .declare (.unmarked .file "a.kt")
    [.declare (.unmarked .klass "A") [.declare (.unmarked .function "m") []],
      .declare (.unmarked .function "f")
        [.declare (.unmarked .lambda none)
          [.declare (.unmarked .lambda none) [.declare (.unmarked .function "g") []]]]]

/-- The function in the lambdas is local and nothing else, that in the class is a member and nothing
else. -/
theorem Grammatical.roles_exclusive_functionInLambdas :
    functionInLambdas.Grammatical ∧ ∃ built, functionInLambdas.layout = .ok built ∧
      (built.tree.kind 6 = .ok .function ∧
        (∀ other, built.tree.plays other 6 = .ok (decide (other = .localFunction))) ∧
        built.tree.isNonlocal 6 = .ok false) ∧
      (built.tree.kind 2 = .ok .function ∧
        (∀ other, built.tree.plays other 2 = .ok (decide (other = .memberFunction))) ∧
        ∀ above ∈ (built.tree.ancestors 2).visited, built.tree.kind above ≠ .ok .function) ∧
      (∀ other : Standing, other.test built.tree 5 = .ok (decide (other = .anonymous))) ∧
      built.tree.isAnonymous 4 = .ok true ∧
      ∃ nodes, (built.tree.preorder .never 4).nodes = .ok nodes ∧
        ∀ below ∈ nodes, built.tree.hasKind .klass below = .ok false := by
  have grammatical : functionInLambdas.Grammatical := by
    refine .bare rfl (by decide) ?_ (by decide)
    simp [AreMembers, IsMember, AreCode, IsCode]
  obtain ⟨built, laid, each⟩ := grammatical.roles_exclusive
  let tree : ScopeTree :=
    { records := (functionInLambdas.records none 0).toArray
      size_pos := by decide
      parent_root := rfl }
  have closed : functionInLambdas.layout = .ok (.ofTree tree) := (layout_eq _).trans rfl
  obtain rfl : LabelledTree.ofTree tree = built := Except.ok.inj (closed.symm.trans laid)
  obtain ⟨⟨inner, -, inner_eq⟩, negated, -⟩ := (each 6 (by decide)).1 rfl
  obtain ⟨⟨outer, -, outer_eq⟩, -, outside⟩ := (each 2 (by decide)).1 rfl
  obtain ⟨standing, standing_eq⟩ := (each 5 (by decide)).2.1
  have localRole : tree.plays .localFunction 6 = .ok true := by decide
  have memberRole : tree.plays .memberFunction 2 = .ok true := by decide
  have anonymous : tree.isAnonymous 5 = .ok true := by decide
  have around : tree.isAnonymous 4 = .ok true := by decide
  obtain rfl : Role.localFunction = inner :=
    of_decide_eq_true (Except.ok.inj ((inner_eq _).symm.trans localRole))
  obtain rfl : Role.memberFunction = outer :=
    of_decide_eq_true (Except.ok.inj ((outer_eq _).symm.trans memberRole))
  obtain rfl : Standing.anonymous = standing :=
    of_decide_eq_true (Except.ok.inj ((standing_eq .anonymous).symm.trans anonymous))
  refine ⟨grammatical, _, laid, ⟨rfl, inner_eq, ?_⟩, ⟨rfl, outer_eq, outside.mp (by decide)⟩,
    standing_eq, around, (each 4 (by decide)).2.2 around⟩
  rw [negated]
  exact congrArg (Except.map not) localRole

end Decl

end BinaryName
