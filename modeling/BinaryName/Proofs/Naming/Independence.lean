import BinaryName.Proofs.Naming.OnePass
import BinaryName.Proofs.Text.Segments

/-!
# Top-level declarations do not interfere

The names in a top-level declaration need little of what is around it: a class needs the path of the
package only, and a function also the class of the functions and the next number.  Classes do not
move that number on.  So two files that share a class, or that share their functions, agree on the
names in them, wherever these are in the files and whatever else is there.
-/

namespace BinaryName

namespace ScopeTree

/-- The nodes of a child and of all that is in it, in preorder. -/
def nodesOfChild (tree : ScopeTree) (parent : Handle) (place : Nat) :
    Except Fault (List Handle) := do
  match (← tree.children parent)[place]? with
  | some node => (tree.preorder .never node).nodes
  | none => pure []

/-- The nodes, each in its tree, have the same name by the same rule with the same index. -/
def Alike (tree other : ScopeTree) (node otherNode : Handle) : Prop :=
  ∃ resolution otherResolution, (tree.resolve node).outcome tree = .ok resolution ∧
    (other.resolve otherNode).outcome other = .ok otherResolution ∧
    resolution.name = otherResolution.name ∧ resolution.rule = otherResolution.rule ∧
    resolution.index = otherResolution.index

/-- A child here and a child there are nests of the given size, and their nodes are alike in
turn. -/
def ChildrenAlike (tree other : ScopeTree) (parent otherParent : Handle)
    (place otherPlace count : Nat) : Prop :=
  ∃ nodes otherNodes, tree.nodesOfChild parent place = .ok nodes ∧
    other.nodesOfChild otherParent otherPlace = .ok otherNodes ∧ nodes.length = count ∧
    List.Forall₂ (Alike tree other) nodes otherNodes

end ScopeTree

namespace Decl

/-- The nest is a declaration of the kind. -/
def declares (kind : Kind) : Decl → Bool
  | .declare head _ => head.kind == kind
  | .foreign _ => false

/-- The declared name of a nest. -/
def name? : Decl → Option String
  | .declare head _ => head.name
  | .foreign _ => none

/-- The name of the package of a file, if it has one. -/
def packageName? : Decl → Option (Option String)
  | .declare _ children => (package? children).map fun package => package.1.name
  | .foreign _ => none

/-- The node that the members of a file are directly below: the file or its package. -/
def container (decl : Decl) : Nat := decl.outer - 1

theorem path_eq (decl : Decl) :
    decl.path = (decl.packageName?.map fun name => packagePath (name.getD "")).getD "" := by
  cases decl with
  | foreign sort => rfl
  | declare file children =>
      rw [path, packageName?]
      cases package? children <;> rfl

theorem Grammatical.facade_eq {decl : Decl} (grammatical : decl.Grammatical) :
    decl.facade = fileClass (decl.name?.getD "") := by
  cases grammatical <;> rfl

/-! ## What goes before -/

/-- The next number of the class of the functions, after some members of a file. -/
def nextNumber (owner : String) (next : Nat) : List Decl → Nat
  | [] => next
  | .declare head children :: rest =>
      if head.kind = .klass then
        nextNumber owner next rest
      else
        nextNumber owner (designateCodeAll owner next children).2 rest
  | .foreign _ :: rest => nextNumber owner next rest

theorem designateTop_append (path facade : String) (next : Nat) (before after : List Decl) :
    designateTop path facade next (before ++ after) =
      designateTop path facade next before ++
        designateTop path facade (nextNumber (path ++ facade) next before) after := by
  induction before generalizing next with
  | nil => rfl
  | cons decl rest ih =>
      cases decl with
      | foreign sort => exact ih next
      | declare head children =>
          rw [List.cons_append, designateTop, designateTop, nextNumber]
          by_cases klass : head.kind = .klass
          · simp only [klass, if_true, ih, List.cons_append, List.append_assoc]
          · simp only [klass, if_false, ih, List.cons_append, List.append_assoc]

/-- Only functions move the next number on. -/
theorem nextNumber_filter (owner : String) (next : Nat) {decls : List Decl}
    (sound : AreMembers decls) :
    nextNumber owner next decls = nextNumber owner next (decls.filter (declares .function)) := by
  induction decls generalizing next with
  | nil => rfl
  | cons decl rest ih =>
      cases decl with
      | foreign sort => exact sound.1.elim
      | declare head children =>
          rcases sound.1.2 with ⟨klass, -⟩ | ⟨function, -⟩
          · simpa [nextNumber, declares, klass] using ih next sound.2
          · simpa [nextNumber, declares, function] using ih _ sound.2

/-- A class needs only the path. -/
theorem designateTop_of_klass {klass : Decl} (isKlass : klass.declares .klass = true)
    (path facade other : String) (next otherNext : Nat) :
    designateTop path facade next [klass] = designateTop path other otherNext [klass] := by
  cases klass with
  | foreign sort => rfl
  | declare head children =>
      have kind_eq : head.kind = .klass := by simpa [declares] using isKlass
      simp only [designateTop, kind_eq, if_true]

/-! ## Members in a tree -/

variable {tree : ScopeTree} {decl member : Decl} {before after : List Decl}

/-- The members are planted directly below their container. -/
theorem Fills.planted_members (fills : decl.Fills tree) (grammatical : decl.Grammatical) :
    tree.children (decl.container : Int) = .ok (starts decl.outer decl.members) ∧
      PlantedAll tree decl.container decl.outer decl.members := by
  cases grammatical with
  | bare _ _ sound _ =>
      rw [container, outer_of_bare sound, members_of_bare sound]
      exact ⟨fills.planted.children_eq, fills.planted.below⟩
  | packaged _ _ isPackage _ _ _ =>
      have planted := fills.planted.below.first
      rw [container, outer_of_packaged isPackage, members_of_packaged isPackage]
      exact ⟨planted.children_eq, planted.below⟩

theorem Fills.nodesOfChild_eq (fills : decl.Fills tree) (grammatical : decl.Grammatical)
    (members_eq : decl.members = before ++ member :: after) :
    tree.nodesOfChild decl.container before.length =
      .ok (handlesFrom (decl.outer + countAll before) member.count) := by
  obtain ⟨children_eq, planted⟩ := fills.planted_members grammatical
  rw [members_eq] at children_eq planted
  have first := planted.of_append.first
  have found : (starts decl.outer (before ++ member :: after))[before.length]? =
      some ((decl.outer + countAll before : Nat) : Int) := by
    rw [starts_append, List.getElem?_append_right (Nat.le_of_eq (length_starts _ _)), length_starts,
      Nat.sub_self]
    rfl
  have within : decl.outer + countAll before + member.count ≤ tree.size := by
    rw [fills.size_eq, grammatical.count_eq, members_eq, countAll_append, countAll]
    omega
  have kept_eq : member.kept (fun _ => false) (decl.outer + countAll before) =
      handlesFrom (decl.outer + countAll before) member.count :=
    kept_eq_handlesFrom member first fun _ _ _ => rfl
  rw [ScopeTree.nodesOfChild, children_eq]
  simp only [bind, Except.bind, found]
  rw [fills.preorder_eq tree.decides_never first within, Walk.nodes_stop_after, kept_eq]

/-- A member is named by the part of the pass for it. -/
theorem Fills.designates_member (fills : decl.Fills tree) (grammatical : decl.Grammatical)
    (members_eq : decl.members = before ++ member :: after) :
    List.Forall₂ tree.Designates (handlesFrom (decl.outer + countAll before) member.count)
      (designateTop decl.path decl.facade
        (nextNumber (decl.path ++ decl.facade) 1 before) [member]) := by
  have sound := grammatical.areMembers
  have designates := fills.designates_file grammatical
  have others : decl.count - decl.outer = countAll before + (member.count + countAll after) := by
    rw [grammatical.count_eq, members_eq, countAll_append, countAll]
    omega
  rw [members_eq] at sound
  obtain ⟨before_sound, after_sound⟩ := areMembers_append sound
  have member_sound : AreMembers [member] := ⟨after_sound.1, trivial⟩
  rw [others, handlesFrom_add, handlesFrom_add, designations, members_eq, designateTop_append]
    at designates
  have further := List.forall₂_drop_append _ _ _ designates
  rw [length_designateTop _ _ _ before_sound, List.drop_left' (length_handlesFrom _ _),
    ← List.singleton_append, designateTop_append] at further
  have first := List.forall₂_take_append _ _ _ further
  have length_eq : (handlesFrom (decl.outer + countAll before) member.count).length =
      (designateTop decl.path decl.facade (nextNumber (decl.path ++ decl.facade) 1 before)
        [member]).length := by
    rw [length_designateTop _ _ _ member_sound, length_handlesFrom, countAll, countAll,
      Nat.add_zero]
  rwa [List.take_left' length_eq] at first

end Decl

/-! ## Indices in names -/

namespace Resolution

/-- An anonymous name ends in its index, and no other name has one. -/
def Indexed (resolution : Resolution) : Prop :=
  resolution.rule ≠ .anonymous ∧ resolution.index = none ∨
    resolution.rule = .anonymous ∧ ∃ owner index,
      resolution.index = some index ∧ resolution.name = owner ++ "$" ++ toString index

variable {tree : ScopeTree} {node : Handle} {resolution : Resolution}

theorem indexed_of_ofClass (given : ofClass tree node = .ok resolution) : resolution.Indexed := by
  obtain ⟨chain, chain_eq, -⟩ := bind_eq_ok_iff.mp given
  obtain ⟨name, rfl⟩ := ScopeTree.eq_of_ofClass chain_eq given
  refine Or.inl ⟨?_, rfl⟩
  cases chain[1]? <;> simp

theorem indexed_of_resolve (given : (tree.resolve node).eval tree = .ok resolution) :
    resolution.Indexed := by
  cases ScopeTree.byRule_of_resolve given with
  | klass kind_eq given => exact indexed_of_ofClass given
  | topLevelFunction => exact Or.inl ⟨by simp, rfl⟩
  | @anonymous base index outer => exact Or.inr ⟨rfl, outer.name, index, rfl, rfl⟩
  | memberFunction => exact Or.inl ⟨by simp, rfl⟩

/-- The index can be read off the name and the rule. -/
theorem Indexed.index_eq {other : Resolution} (indexed : resolution.Indexed)
    (also : other.Indexed) (name_eq : resolution.name = other.name)
    (rule_eq : resolution.rule = other.rule) : resolution.index = other.index := by
  rcases indexed with ⟨differs, none_eq⟩ | ⟨anonymous, owner, index, index_eq, ends⟩
  · rcases also with ⟨-, other_none⟩ | ⟨anonymous, -⟩
    · rw [none_eq, other_none]
    · exact absurd (rule_eq.trans anonymous) differs
  · rcases also with ⟨differs, -⟩ | ⟨-, otherOwner, otherIndex, other_eq, other_ends⟩
    · exact absurd (rule_eq.symm.trans anonymous) differs
    · rw [ends, other_ends] at name_eq
      obtain ⟨-, digits⟩ :=
        append_dollar_inj (solid_toString index) (solid_toString otherIndex) name_eq
      rw [index_eq, other_eq, toString_inj digits]

end Resolution

namespace ScopeTree

variable {tree other : ScopeTree}

/-- Nodes with the same designation are alike. -/
theorem Designates.alike {node otherNode : Handle} {designation : Designation}
    (designates : tree.Designates node designation)
    (also : other.Designates otherNode designation) : Alike tree other node otherNode := by
  obtain ⟨resolution, resolution_eq, name_eq, rule_eq⟩ := designates.resolves
  obtain ⟨otherResolution, other_eq, other_name, other_rule⟩ := also.resolves
  have same_name := name_eq.trans other_name.symm
  have same_rule := rule_eq.trans other_rule.symm
  have indexed := Resolution.indexed_of_resolve resolution_eq
  rw [← Inquiry.outcome_eq_eval] at resolution_eq other_eq
  refine ⟨resolution, otherResolution, resolution_eq, other_eq, same_name, same_rule, ?_⟩
  rw [Inquiry.outcome_eq_eval] at other_eq
  exact indexed.index_eq (Resolution.indexed_of_resolve other_eq) same_name same_rule

theorem forall₂_alike {nodes otherNodes : List Handle} {designations : List Designation}
    (designated : List.Forall₂ tree.Designates nodes designations)
    (also : List.Forall₂ other.Designates otherNodes designations) :
    List.Forall₂ (Alike tree other) nodes otherNodes := by
  induction designated generalizing otherNodes with
  | nil =>
      cases also
      exact .nil
  | cons designates _ ih =>
      cases also with
      | cons here later => exact .cons (designates.alike here) (ih later)

end ScopeTree

/-! ## Two files -/

/-- Lists that agree on what passes a test agree before and at a place, if equally many elements
pass before it. -/
theorem filter_take_eq {α : Type} {test : α → Bool} {list other : List α} {place otherPlace : Nat}
    {element otherElement : α} (found : list[place]? = some element)
    (otherFound : other[otherPlace]? = some otherElement) (passes : test element = true)
    (also : test otherElement = true) (filter_eq : list.filter test = other.filter test)
    (count_eq : (list.take place).countP test = (other.take otherPlace).countP test) :
    (list.take place).filter test = (other.take otherPlace).filter test ∧
      element = otherElement := by
  rw [(split_of_getElem? found).1, (split_of_getElem? otherFound).1, List.filter_append,
    List.filter_append, List.filter_cons_of_pos passes, List.filter_cons_of_pos also] at filter_eq
  rw [List.countP_eq_length_filter, List.countP_eq_length_filter] at count_eq
  obtain ⟨before_eq, after_eq⟩ := List.append_inj filter_eq count_eq
  exact ⟨before_eq, (List.cons.inj after_eq).1⟩

namespace Decl

open ScopeTree

variable {decl other member : Decl} {tree otherTree : ScopeTree} {place otherPlace : Nat}

/-- A member of two files is named alike if the pass comes to it alike. -/
theorem Fills.childrenAlike (fills : decl.Fills tree) (otherFills : other.Fills otherTree)
    (grammatical : decl.Grammatical) (otherGrammatical : other.Grammatical)
    (found : decl.members[place]? = some member)
    (otherFound : other.members[otherPlace]? = some member)
    (same : designateTop decl.path decl.facade
        (nextNumber (decl.path ++ decl.facade) 1 (decl.members.take place)) [member] =
      designateTop other.path other.facade
        (nextNumber (other.path ++ other.facade) 1 (other.members.take otherPlace)) [member]) :
    ChildrenAlike tree otherTree decl.container other.container place otherPlace member.count := by
  -- Each file has its own handles for the member; the designations are what the two have in common.
  obtain ⟨members_eq, length_eq⟩ := split_of_getElem? found
  obtain ⟨otherMembers_eq, otherLength_eq⟩ := split_of_getElem? otherFound
  have designated := fills.designates_member grammatical members_eq
  have otherDesignated := otherFills.designates_member otherGrammatical otherMembers_eq
  have nodes_eq := fills.nodesOfChild_eq grammatical members_eq
  have otherNodes_eq := otherFills.nodesOfChild_eq otherGrammatical otherMembers_eq
  rw [length_eq] at nodes_eq
  rw [otherLength_eq] at otherNodes_eq
  rw [← same] at otherDesignated
  exact ⟨_, _, nodes_eq, otherNodes_eq, length_handlesFrom _ _,
    forall₂_alike designated otherDesignated⟩

/-- Files in the same package agree on the names in a class that both have, wherever it is.  If they
also have the same name and the same functions, they agree on the names in these functions, whatever
classes there are. -/
theorem Grammatical.members_named_alike {built otherBuilt : LabelledTree}
    (grammatical : decl.Grammatical) (otherGrammatical : other.Grammatical)
    (laid : decl.layout = .ok built) (otherLaid : other.layout = .ok otherBuilt)
    (samePackage : decl.packageName? = other.packageName?) :
    (∀ (klass : Decl) (place otherPlace : Nat), klass.declares .klass = true →
        decl.members[place]? = some klass → other.members[otherPlace]? = some klass →
        ChildrenAlike built.tree otherBuilt.tree decl.container other.container place otherPlace
          klass.count) ∧
      (decl.name? = other.name? →
        decl.members.filter (declares .function) = other.members.filter (declares .function) →
        ∀ (function otherFunction : Decl) (place otherPlace : Nat),
          function.declares .function = true → otherFunction.declares .function = true →
          decl.members[place]? = some function →
          other.members[otherPlace]? = some otherFunction →
          (decl.members.take place).countP (declares .function) =
            (other.members.take otherPlace).countP (declares .function) →
          ChildrenAlike built.tree otherBuilt.tree decl.container other.container place otherPlace
            function.count) := by
  have fills := fills_of_layout laid
  have otherFills := fills_of_layout otherLaid
  have samePath : decl.path = other.path := by rw [path_eq, path_eq, samePackage]
  constructor
  · intro klass place otherPlace isKlass found otherFound
    apply fills.childrenAlike otherFills grammatical otherGrammatical found otherFound
    rw [samePath]
    exact designateTop_of_klass isKlass _ _ _ _ _
  · intro sameName sameFunctions function otherFunction place otherPlace isFunction otherIsFunction
      found otherFound sameCount
    obtain ⟨before_eq, rfl⟩ :=
      filter_take_eq found otherFound isFunction otherIsFunction sameFunctions sameCount
    have sound := grammatical.areMembers
    have otherSound := otherGrammatical.areMembers
    rw [(split_of_getElem? found).1] at sound
    rw [(split_of_getElem? otherFound).1] at otherSound
    have sameFacade : decl.facade = other.facade := by
      rw [grammatical.facade_eq, otherGrammatical.facade_eq, sameName]
    apply fills.childrenAlike otherFills grammatical otherGrammatical found otherFound
    rw [samePath, sameFacade, nextNumber_filter _ _ (areMembers_append sound).1, before_eq,
      ← nextNumber_filter _ _ (areMembers_append otherSound).1]

/-- A class with a lambda in its only function. -/
def sharedClass (name : String) : Decl :=
  .declare (.unmarked .klass name)
    [.declare (.unmarked .function "m") [.declare (.unmarked .lambda none) []]]

/-- A function with a lambda. -/
def sharedFunction (name : String) : Decl :=
  .declare (.unmarked .function name) [.declare (.unmarked .lambda none) []]

/-- A class, and two functions after it. -/
def classFirst : Decl :=
  .declare (.unmarked .file "a.kt") [sharedClass "A", sharedFunction "f", sharedFunction "g"]

/-- The same functions around the class and around another class. -/
def classBetween : Decl :=
  .declare (.unmarked .file "a.kt")
    [sharedFunction "f", sharedClass "B", sharedClass "A", sharedFunction "g"]

/-- The class and the second function are named alike in both files. -/
theorem Grammatical.members_named_alike_classBetween :
    classFirst.Grammatical ∧ classBetween.Grammatical ∧
      classFirst.packageName? = classBetween.packageName? ∧
      ∃ built otherBuilt, classFirst.layout = .ok built ∧ classBetween.layout = .ok otherBuilt ∧
        ChildrenAlike built.tree otherBuilt.tree 0 0 0 2 3 ∧
        ChildrenAlike built.tree otherBuilt.tree 0 0 2 3 2 := by
  have grammatical : classFirst.Grammatical := by
    refine .bare rfl (by decide) ?_ (by decide)
    simp [AreMembers, IsMember, AreCode, IsCode, sharedClass, sharedFunction]
  have otherGrammatical : classBetween.Grammatical := by
    refine .bare rfl (by decide) ?_ (by decide)
    simp [AreMembers, IsMember, AreCode, IsCode, sharedClass, sharedFunction]
  obtain ⟨built, laid⟩ := grammatical.exists_layout
  obtain ⟨otherBuilt, otherLaid⟩ := otherGrammatical.exists_layout
  have alike := members_named_alike grammatical otherGrammatical laid otherLaid rfl
  refine ⟨grammatical, otherGrammatical, rfl, built, otherBuilt, laid, otherLaid, ?_, ?_⟩
  · exact alike.1 (sharedClass "A") 0 2 rfl rfl rfl
  · exact alike.2 rfl rfl (sharedFunction "g") (sharedFunction "g") 2 3 rfl rfl rfl rfl rfl

end Decl

end BinaryName
