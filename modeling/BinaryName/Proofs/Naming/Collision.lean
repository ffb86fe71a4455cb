import BinaryName.Proofs.Naming.OnePass
import BinaryName.Proofs.Text.Segments

/-!
# Names do not collide

The classes that a file compiles to are its classes, its lambdas and local functions, and one class
for its functions.  They have different names if no class name looks like part of another name or
like a number, and classes side by side have different names.  Two names in one class come apart at
their ends, where a class has its own name and an anonymous class has its number.  Two names in
different classes come apart right after the common start.
-/

namespace BinaryName

/-- The rule names a class of its own. -/
def NamingRule.generates : NamingRule → Bool
  | .topLevelClass | .nestedClass | .anonymous => true
  | .topLevelFunction | .memberFunction => false

namespace Decl

/-- The names of the classes among some declarations, not of those inside them. -/
def klassNames : List Decl → List String
  | [] => []
  | .declare head _ :: rest =>
      if head.kind = .klass then head.name.getD "" :: klassNames rest else klassNames rest
  | .foreign _ :: rest => klassNames rest

mutual

/-- The class names in the nest are plain, and classes side by side have different names. -/
def Tidy : Decl → Prop
  | .declare head children =>
      (head.kind = .klass → Plain (head.name.getD "")) ∧ (klassNames children).Nodup ∧
        TidyAll children
  | .foreign _ => True

/-- The same for each of several nests. -/
def TidyAll : List Decl → Prop
  | [] => True
  | decl :: rest => decl.Tidy ∧ TidyAll rest

end

theorem klassNames_cons (decl : Decl) (rest : List Decl) :
    klassNames (decl :: rest) = klassNames [decl] ++ klassNames rest := by
  cases decl with
  | foreign sort => rfl
  | declare head children =>
      rw [klassNames, klassNames]
      split <;> rfl

theorem klassNames_klass {head : Head} {name : String} (klass : head.kind = .klass)
    (name_eq : head.name = some name) (children : List Decl) :
    klassNames [.declare head children] = [name] := by
  rw [klassNames, if_pos klass, name_eq]
  rfl

theorem klassNames_function {head : Head} (function : head.kind = .function)
    (children : List Decl) : klassNames [.declare head children] = [] := by
  rw [klassNames, if_neg (by simp [function])]
  rfl

theorem plain_of_mem_klassNames {nests : List Decl} {name : String} (tidy : TidyAll nests)
    (member : name ∈ klassNames nests) : Plain name := by
  induction nests with
  | nil => simp [klassNames] at member
  | cons nest rest ih =>
      cases nest with
      | foreign sort => exact ih tidy.2 member
      | declare head children =>
          rw [klassNames] at member
          split at member
          next klass =>
            rcases List.mem_cons.mp member with rfl | later
            · exact tidy.1.1 klass
            · exact ih tidy.2 later
          next => exact ih tidy.2 member

end Decl

namespace Designation

/-- The two do not name the same class. -/
def Apart (one other : Designation) : Prop :=
  one.rule.generates = true → other.rule.generates = true → one.name ≠ other.name

/-- The name ends with a number of the range, after a name that extends the owner. -/
def Numbered (owner : String) (first last : Nat) (designation : Designation) : Prop :=
  ∃ base number, Extends owner base ∧ first ≤ number ∧ number < last ∧
    designation.name = base ++ "$" ++ toString number

/-- The name extends that of one of the classes of the owner, and ends with a plain part. -/
def Nested (owner : String) (klasses : List String) (designation : Designation) : Prop :=
  ∃ klass ∈ klasses, Extends (owner ++ "$" ++ klass) designation.name ∧
    ∃ around part, Plain part ∧ designation.name = around ++ "$" ++ part

/-- What names the classes of an owner, with numbers of the range. -/
structure Spread (owner : String) (klasses : List String) (first last : Nat)
    (designations : List Designation) : Prop where
  le : first ≤ last
  each : ∀ designation ∈ designations, designation.rule.generates = true →
    designation.Numbered owner first last ∨ designation.Nested owner klasses
  inner : ∀ designation ∈ designations, designation.rule ≠ .topLevelFunction
  apart : designations.Pairwise Apart

variable {owner : String} {klasses others : List String} {first between last : Nat}
  {one other : Designation} {designations later : List Designation}

theorem spread_nil (owner : String) (klasses : List String) (first : Nat) :
    Spread owner klasses first first [] :=
  ⟨Nat.le_refl _, by simp, by simp, .nil⟩

theorem Numbered.extends (numbered : one.Numbered owner first last) : Extends owner one.name := by
  obtain ⟨base, number, continues, -, -, name_eq⟩ := numbered
  rw [name_eq]
  exact continues.trans (.step base _)

theorem Numbered.widen {first' last' : Nat} (numbered : one.Numbered owner first last)
    (first_le : first' ≤ first) (le_last : last ≤ last') : one.Numbered owner first' last' := by
  obtain ⟨base, number, continues, ge, lt, name_eq⟩ := numbered
  exact ⟨base, number, continues, by omega, by omega, name_eq⟩

theorem Numbered.ne_numbered (numbered : one.Numbered owner first between)
    (further : other.Numbered owner between last) : one.name ≠ other.name := by
  obtain ⟨base, number, -, -, lt, name_eq⟩ := numbered
  obtain ⟨base', number', -, le, -, name_eq'⟩ := further
  rw [name_eq, name_eq']
  intro equal
  have same := toString_inj
    (append_dollar_inj (solid_toString number) (solid_toString number') equal).2
  omega

theorem Numbered.ne_nested (numbered : one.Numbered owner first last) (positive : 0 < first)
    (nested : other.Nested owner klasses) : one.name ≠ other.name := by
  obtain ⟨base, number, -, le, -, name_eq⟩ := numbered
  obtain ⟨-, -, -, around, part, plain, name_eq'⟩ := nested
  rw [name_eq, name_eq']
  intro equal
  have same := (append_dollar_inj (solid_toString number) plain.1 equal).2
  exact plain.2 number (by omega) same.symm

theorem Nested.mono (nested : one.Nested owner klasses) (subset : klasses ⊆ others) :
    one.Nested owner others := by
  obtain ⟨klass, member, continues⟩ := nested
  exact ⟨klass, subset member, continues⟩

theorem Nested.ne_nested (nested : one.Nested owner klasses) (further : other.Nested owner others)
    (plain : ∀ klass ∈ klasses, Plain klass) (also : ∀ klass ∈ others, Plain klass)
    (distinct : (klasses ++ others).Nodup) : one.name ≠ other.name := by
  obtain ⟨klass, member, continues, -⟩ := nested
  obtain ⟨klass', member', continues', -⟩ := further
  intro equal
  rw [← equal] at continues'
  have same := continues.solid_unique continues' (plain klass member).1 (also klass' member').1
  exact (List.nodup_append.mp distinct).2.2 klass member klass' member' same

/-- Two spreads for one owner go together if their numbers and their classes do. -/
theorem Spread.append (spread : Spread owner klasses first between designations)
    (further : Spread owner others between last later) (positive : 0 < first)
    (plain : ∀ klass ∈ klasses, Plain klass) (also : ∀ klass ∈ others, Plain klass)
    (distinct : (klasses ++ others).Nodup) :
    Spread owner (klasses ++ others) first last (designations ++ later) := by
  refine ⟨Nat.le_trans spread.le further.le, ?_, ?_,
    List.pairwise_append.mpr ⟨spread.apart, further.apart, ?_⟩⟩
  · intro designation member generates
    rcases List.mem_append.mp member with early | late
    · rcases spread.each designation early generates with numbered | nested
      · exact Or.inl (numbered.widen (Nat.le_refl _) further.le)
      · exact Or.inr (nested.mono (List.subset_append_left _ _))
    · rcases further.each designation late generates with numbered | nested
      · exact Or.inl (numbered.widen spread.le (Nat.le_refl _))
      · exact Or.inr (nested.mono (List.subset_append_right _ _))
  · intro designation member
    rcases List.mem_append.mp member with early | late
    · exact spread.inner designation early
    · exact further.inner designation late
  · intro one early other late generates also_generates
    rcases spread.each one early generates with numbered | nested
    · rcases further.each other late also_generates with numbered' | nested'
      · exact numbered.ne_numbered numbered'
      · exact numbered.ne_nested positive nested'
    · rcases further.each other late also_generates with numbered' | nested'
      · exact (numbered'.ne_nested (Nat.lt_of_lt_of_le positive spread.le) nested).symm
      · exact nested.ne_nested nested' plain also distinct

theorem Spread.extends (spread : Spread owner klasses first last designations)
    (member : one ∈ designations) (generates : one.rule.generates = true) :
    Extends owner one.name := by
  rcases spread.each one member generates with numbered | ⟨klass, -, continues, -⟩
  · exact numbered.extends
  · exact (Extends.step owner klass).trans continues

/-- Nothing in a class has the name of the class. -/
theorem Spread.ne_owner (spread : Spread owner klasses first last designations)
    (member : one ∈ designations) (generates : one.rule.generates = true) : one.name ≠ owner := by
  rcases spread.each one member generates with
    ⟨base, number, continues, -, -, name_eq⟩ | ⟨klass, -, continues, -⟩
  · rw [name_eq]
    exact continues.ne_start _
  · exact continues.ne_of_step

/-- A class and what it has in it. -/
theorem Spread.klass {name : String} (plain : Plain name)
    (spread : Spread (owner ++ "$" ++ name) klasses first last designations) :
    Spread owner [name] first last
      ({ name := owner ++ "$" ++ name, rule := .nestedClass } :: designations) := by
  refine ⟨spread.le, ?_, List.forall_mem_cons.mpr ⟨by simp, spread.inner⟩,
    List.pairwise_cons.mpr ⟨?_, spread.apart⟩⟩
  · intro designation member generates
    rcases List.mem_cons.mp member with rfl | below
    · exact Or.inr ⟨name, List.mem_singleton_self _, .refl _, owner, name, plain, rfl⟩
    · rcases spread.each designation below generates with
        ⟨base, number, continues, ge, lt, name_eq⟩ | ⟨klass, -, continues, ends⟩
      · exact Or.inl ⟨base, number, (Extends.step owner name).trans continues, ge, lt, name_eq⟩
      · exact Or.inr ⟨name, List.mem_singleton_self _, (Extends.step _ klass).trans continues, ends⟩
  · intro designation below _ generates
    exact (spread.ne_owner below generates).symm

/-- A function of a class and what it has in it. -/
theorem Spread.function (spread : Spread owner [] first last designations) :
    Spread owner [] first last ({ name := owner, rule := .memberFunction } :: designations) := by
  refine ⟨spread.le, ?_, List.forall_mem_cons.mpr ⟨by simp, spread.inner⟩,
    List.pairwise_cons.mpr ⟨?_, spread.apart⟩⟩
  · intro designation member generates
    rcases List.mem_cons.mp member with rfl | below
    · simp [NamingRule.generates] at generates
    · exact spread.each designation below generates
  · intro designation _ generates
    simp [NamingRule.generates] at generates

theorem spread_number (owner : String) (number : Nat) :
    Spread owner [] number (number + 1)
      [{ name := owner ++ "$" ++ toString number, rule := .anonymous }] := by
  refine ⟨Nat.le_succ _, ?_, by simp, List.pairwise_singleton _ _⟩
  intro designation member _
  rw [List.mem_singleton.mp member]
  exact Or.inl ⟨owner, number, .refl _, Nat.le_refl _, Nat.lt_succ_self _, rfl⟩

end Designation

namespace Decl

open Designation

/-! ## What the pass spreads -/

mutual

theorem spread_code (owner : String) :
    ∀ (decl : Decl) (next : Nat), 0 < next →
      Spread owner [] next (decl.designateCode owner next).2 (decl.designateCode owner next).1
  | .declare head children, next, positive => by
      rw [designateCode_declare]
      exact (spread_number owner next).append (spread_codeAll owner children (next + 1) (by omega))
        positive (by simp) (by simp) (by simp)
  | .foreign _, next, _ => spread_nil owner [] next

theorem spread_codeAll (owner : String) :
    ∀ (decls : List Decl) (next : Nat), 0 < next →
      Spread owner [] next (designateCodeAll owner next decls).2
        (designateCodeAll owner next decls).1
  | [], next, _ => spread_nil owner [] next
  | decl :: rest, next, positive => by
      have first := spread_code owner decl next positive
      have later := spread_codeAll owner rest (decl.designateCode owner next).2
        (Nat.lt_of_lt_of_le positive first.le)
      rw [designateCodeAll_cons]
      exact first.append later positive (by simp) (by simp) (by simp)

end

mutual

theorem spread_member :
    ∀ (decl : Decl) (owner : String) (next : Nat), decl.IsMember → decl.Tidy → 0 < next →
      Spread owner (klassNames [decl]) next (decl.designateMember owner next).2
        (decl.designateMember owner next).1
  | .declare head children, owner, next, sound, tidy, positive => by
      rcases sound.2 with ⟨klass, members⟩ | ⟨function, -⟩
      · obtain ⟨name, name_eq⟩ := Option.ne_none_iff_exists'.mp sound.1
        have plain : Plain name := by simpa [name_eq] using tidy.1 klass
        have below := spread_members children (owner ++ "$" ++ name) next members tidy.2.2 tidy.2.1
          positive
        rw [designateMember_klass klass name_eq, klassNames_klass klass name_eq]
        exact below.klass plain
      · rw [designateMember_function function, klassNames_function function]
        exact (spread_codeAll owner children next positive).function
  | .foreign _, _, _, sound, _, _ => sound.elim

theorem spread_members :
    ∀ (decls : List Decl) (owner : String) (next : Nat), AreMembers decls → TidyAll decls →
      (klassNames decls).Nodup → 0 < next →
      Spread owner (klassNames decls) next (designateMembers owner next decls).2
        (designateMembers owner next decls).1
  | [], owner, next, _, _, _, _ => spread_nil owner _ next
  | decl :: rest, owner, next, sound, tidy, distinct, positive => by
      rw [klassNames_cons] at distinct ⊢
      have first_tidy : TidyAll [decl] := ⟨tidy.1, trivial⟩
      have first := spread_member decl owner next sound.1 tidy.1 positive
      have later := spread_members rest owner (decl.designateMember owner next).2 sound.2 tidy.2
        (List.nodup_append.mp distinct).2.1 (Nat.lt_of_lt_of_le positive first.le)
      rw [designateMembers_cons]
      exact first.append later positive
        (fun _ member => plain_of_mem_klassNames first_tidy member)
        (fun _ member => plain_of_mem_klassNames tidy.2 member) distinct

end

end Decl

namespace Designation

/-- What names the classes of a file: those that extend the class of the functions, with numbers of
the range, and those that extend a top-level class. -/
structure SpreadTop (path facade : String) (klasses : List String) (first last : Nat)
    (designations : List Designation) : Prop where
  le : first ≤ last
  each : ∀ designation ∈ designations, designation.rule.generates = true →
    designation.Numbered (path ++ facade) first last ∨
      ∃ klass ∈ klasses, Extends (path ++ klass) designation.name
  shared : ∀ designation ∈ designations, designation.rule = .topLevelFunction →
    designation.name = path ++ facade
  apart : designations.Pairwise Apart

variable {path facade : String} {klasses others : List String} {first between last : Nat}
  {one other : Designation} {designations later : List Designation}

/-- Two spreads for one file go together if their numbers and their classes do. -/
theorem SpreadTop.append (spread : SpreadTop path facade klasses first between designations)
    (further : SpreadTop path facade others between last later)
    (solid : ∀ klass ∈ klasses ++ others, Solid klass) (distinct : (klasses ++ others).Nodup)
    (facade_solid : Solid facade) (unlike : facade ∉ klasses ++ others) :
    SpreadTop path facade (klasses ++ others) first last (designations ++ later) := by
  have elsewhere : ∀ klass ∈ klasses ++ others, ∀ name, Extends (path ++ facade) name →
      ¬Extends (path ++ klass) name := by
    intro klass member name continues continues'
    rw [continues.solid_unique continues' facade_solid (solid klass member)] at unlike
    exact unlike member
  refine ⟨Nat.le_trans spread.le further.le, ?_, ?_,
    List.pairwise_append.mpr ⟨spread.apart, further.apart, ?_⟩⟩
  · intro designation member generates
    rcases List.mem_append.mp member with early | late
    · rcases spread.each designation early generates with
        numbered | ⟨klass, klass_member, continues⟩
      · exact Or.inl (numbered.widen (Nat.le_refl _) further.le)
      · exact Or.inr ⟨klass, List.mem_append_left _ klass_member, continues⟩
    · rcases further.each designation late generates with
        numbered | ⟨klass, klass_member, continues⟩
      · exact Or.inl (numbered.widen spread.le (Nat.le_refl _))
      · exact Or.inr ⟨klass, List.mem_append_right _ klass_member, continues⟩
  · intro designation member
    rcases List.mem_append.mp member with early | late
    · exact spread.shared designation early
    · exact further.shared designation late
  · intro one early other late generates also_generates equal
    rcases spread.each one early generates with numbered | ⟨klass, klass_member, continues⟩
    · rcases further.each other late also_generates with numbered' | ⟨klass', member', continues'⟩
      · exact numbered.ne_numbered numbered' equal
      · rw [← equal] at continues'
        exact elsewhere klass' (List.mem_append_right _ member') _ numbered.extends continues'
    · rcases further.each other late also_generates with numbered' | ⟨klass', member', continues'⟩
      · rw [equal] at continues
        exact elsewhere klass (List.mem_append_left _ klass_member) _ numbered'.extends continues
      · rw [← equal] at continues'
        have same := continues.solid_unique continues'
          (solid klass (List.mem_append_left _ klass_member))
          (solid klass' (List.mem_append_right _ member'))
        exact (List.nodup_append.mp distinct).2.2 klass klass_member klass' member' same

/-- No class has the name of the class of the functions. -/
theorem SpreadTop.ne_shared (spread : SpreadTop path facade klasses first last designations)
    (solid : ∀ klass ∈ klasses, Solid klass) (facade_solid : Solid facade)
    (unlike : facade ∉ klasses) (member : one ∈ designations)
    (generates : one.rule.generates = true) : one.name ≠ path ++ facade := by
  rcases spread.each one member generates with
    ⟨base, number, continues, -, -, name_eq⟩ | ⟨klass, klass_member, continues⟩
  · rw [name_eq]
    exact continues.ne_start _
  · intro equal
    rw [equal] at continues
    rw [(Extends.refl _).solid_unique continues facade_solid (solid klass klass_member)] at unlike
    exact unlike klass_member

/-- A top-level class and what it has in it. -/
theorem Spread.topLevelClass {name : String}
    (spread : Spread (path ++ name) klasses first last designations) (facade : String)
    (next : Nat) :
    SpreadTop path facade [name] next next
      ({ name := path ++ name, rule := .topLevelClass } :: designations) := by
  refine ⟨Nat.le_refl _, ?_, List.forall_mem_cons.mpr ⟨by simp, ?_⟩,
    List.pairwise_cons.mpr ⟨?_, spread.apart⟩⟩
  · intro designation member generates
    refine Or.inr ⟨name, List.mem_singleton_self _, ?_⟩
    rcases List.mem_cons.mp member with rfl | below
    · exact .refl _
    · exact spread.extends below generates
  · intro designation below top
    exact absurd top (spread.inner designation below)
  · intro designation below _ generates
    exact (spread.ne_owner below generates).symm

/-- A top-level function and what it has in it. -/
theorem Spread.topLevelFunction
    (spread : Spread (path ++ facade) [] first last designations) :
    SpreadTop path facade [] first last
      ({ name := path ++ facade, rule := .topLevelFunction } :: designations) := by
  refine ⟨spread.le, ?_, List.forall_mem_cons.mpr ⟨fun _ => rfl, ?_⟩,
    List.pairwise_cons.mpr ⟨?_, spread.apart⟩⟩
  · intro designation member generates
    rcases List.mem_cons.mp member with rfl | below
    · simp [NamingRule.generates] at generates
    · rcases spread.each designation below generates with numbered | ⟨klass, missing, -⟩
      · exact Or.inl numbered
      · simp at missing
  · intro designation below top
    exact absurd top (spread.inner designation below)
  · intro designation _ generates
    simp [NamingRule.generates] at generates

end Designation

namespace Decl

open Designation

theorem exists_spreadTop (path : String) {facade : String} (facade_solid : Solid facade) :
    ∀ (nests : List Decl) (next : Nat), AreMembers nests → TidyAll nests →
      (klassNames nests).Nodup → facade ∉ klassNames nests → 0 < next →
      ∃ last, SpreadTop path facade (klassNames nests) next last
        (designateTop path facade next nests)
  | [], next, _, _, _, _, _ =>
      ⟨next, Nat.le_refl _, by simp [designateTop], by simp [designateTop], .nil⟩
  | .foreign _ :: _, _, sound, _, _, _, _ => sound.1.elim
  | .declare head children :: rest, next, sound, tidy, distinct, unlike, positive => by
      have solid : ∀ klass ∈ klassNames (.declare head children :: rest), Solid klass :=
        fun _ member => (plain_of_mem_klassNames tidy member).1
      rw [klassNames_cons] at distinct unlike solid ⊢
      have rest_distinct := (List.nodup_append.mp distinct).2.1
      have rest_unlike : facade ∉ klassNames rest := fun member =>
        unlike (List.mem_append_right _ member)
      rcases sound.1.2 with ⟨klass, members⟩ | ⟨function, -⟩
      · obtain ⟨name, name_eq⟩ := Option.ne_none_iff_exists'.mp sound.1.1
        have below := (spread_members children (path ++ name) 1 members tidy.1.2.2 tidy.1.2.1
          Nat.one_pos).topLevelClass facade next
        obtain ⟨last, later⟩ := exists_spreadTop path facade_solid rest next sound.2 tidy.2
          rest_distinct rest_unlike positive
        rw [klassNames_klass klass name_eq] at distinct unlike solid ⊢
        rw [designateTop_klass klass name_eq]
        exact ⟨last, below.append later solid distinct facade_solid unlike⟩
      · have spread := spread_codeAll (path ++ facade) children next positive
        obtain ⟨last, later⟩ := exists_spreadTop path facade_solid rest
          (designateCodeAll (path ++ facade) next children).2 sound.2 tidy.2 rest_distinct
          rest_unlike
          (Nat.lt_of_lt_of_le positive spread.le)
        rw [klassNames_function function] at distinct unlike solid ⊢
        rw [designateTop_function function]
        exact ⟨last, spread.topLevelFunction.append later solid distinct facade_solid unlike⟩

theorem Grammatical.tidy_members {decl : Decl} (grammatical : decl.Grammatical) (tidy : decl.Tidy) :
    TidyAll decl.members ∧ (klassNames decl.members).Nodup := by
  cases grammatical with
  | bare _ _ sound =>
      rw [members_of_bare sound]
      exact ⟨tidy.2.2, tidy.2.1⟩
  | packaged _ _ isPackage _ _ =>
      rw [members_of_packaged isPackage]
      exact ⟨tidy.2.2.1.2.2, tidy.2.2.1.2.1⟩

theorem solid_fileClass (name : String) : Solid (fileClass name) := by
  rw [Solid, fileClass, String.toList_map]
  intro member
  obtain ⟨char, -, char_eq⟩ := List.mem_map.mp member
  split at char_eq
  next => simp at char_eq
  next other => exact other (Or.inr char_eq)

theorem solid_facade (decl : Decl) : Solid decl.facade := by
  cases decl with
  | declare file children => exact solid_fileClass _
  | foreign sort => simp [facade, Solid]

/-- The pass gives different names to different classes. -/
theorem Grammatical.exists_spreadTop {decl : Decl} (grammatical : decl.Grammatical)
    (tidy : decl.Tidy) (unlike : decl.facade ∉ klassNames decl.members) :
    ∃ last, SpreadTop decl.path decl.facade (klassNames decl.members) 1 last decl.designations := by
  obtain ⟨members_tidy, distinct⟩ := grammatical.tidy_members tidy
  exact Decl.exists_spreadTop decl.path decl.solid_facade decl.members 1 grammatical.areMembers
    members_tidy distinct unlike Nat.one_pos

end Decl

/-! ## Nodes -/

theorem Designation.Apart.symm {one other : Designation} (apart : one.Apart other) :
    other.Apart one :=
  fun generates also => (apart also generates).symm

theorem exists_apart {α : Type} {related : α → Designation → Prop} {left : List α}
    {right : List Designation} (pairs : List.Forall₂ related left right)
    (apart : right.Pairwise Designation.Apart) {one other : α} (member : one ∈ left)
    (also : other ∈ left) (differ : one ≠ other) :
    ∃ first second, related one first ∧ related other second ∧ first.Apart second := by
  induction pairs with
  | nil => simp at member
  | @cons head designation _ _ here rest ih =>
      obtain ⟨ahead, later⟩ := List.pairwise_cons.mp apart
      rcases List.mem_cons.mp member with rfl | member_later
      · rcases List.mem_cons.mp also with rfl | also_later
        · exact absurd rfl differ
        · obtain ⟨second, second_member, there⟩ := exists_related_of_mem rest also_later
          exact ⟨designation, second, here, there, ahead second second_member⟩
      · rcases List.mem_cons.mp also with rfl | also_later
        · obtain ⟨first, first_member, there⟩ := exists_related_of_mem rest member_later
          exact ⟨first, designation, there, here, (ahead first first_member).symm⟩
        · exact ih later member_later also_later

namespace ScopeTree

variable {tree : ScopeTree} {node : Nat}

/-- The node compiles to a class of its own. -/
def Generates (tree : ScopeTree) (node : Handle) : Prop :=
  tree.kind node = .ok .klass ∨ tree.isAnonymous node = .ok true

theorem Generates.not_container (ordered : tree.Ordered) (inside : node < tree.size)
    (generates : tree.Generates node) :
    ∃ kind, tree.kind (node : Int) = .ok kind ∧ kind.isContainer = false := by
  rcases generates with klass | anonymous
  · exact ⟨.klass, klass, rfl⟩
  · rw [judges_isAnonymous ordered node inside] at anonymous
    have counted := Except.ok.inj anonymous
    rw [Lineage.isAnonymous, Bool.or_eq_true, beq_iff_eq] at counted
    rcases counted with lambda | function
    · exact ⟨.lambda, kind_of_head? ordered inside lambda, rfl⟩
    · exact ⟨.function, kind_of_head? ordered inside (Role.head?_of_fits function), rfl⟩

theorem Designates.generates (ordered : tree.Ordered) (inside : node < tree.size)
    {designation : Designation} (designates : tree.Designates node designation)
    (generates : tree.Generates node) : designation.rule.generates = true := by
  rcases generates with klass | anonymous
  · obtain ⟨resolution, resolution_eq, -, rule_eq⟩ := designates.resolves
    obtain ⟨chain, chain_eq⟩ := exists_classChain ordered inside
    rw [eval_resolve_klass klass] at resolution_eq
    obtain ⟨name, rfl⟩ := eq_of_ofClass chain_eq resolution_eq
    rw [← rule_eq]
    cases chain[1]? <;> rfl
  · rw [judges_isAnonymous ordered node inside] at anonymous
    have counted : tree.numbers node = true := Except.ok.inj anonymous
    rw [designates.counts, beq_iff_eq] at counted
    rw [counted]
    rfl

end ScopeTree

namespace Decl

open ScopeTree

variable {tree : ScopeTree} {node : Nat}

/-- Only the file and its package are not named by the pass. -/
theorem Grammatical.mem_handlesFrom {decl : Decl} (grammatical : decl.Grammatical)
    (fills : decl.Fills tree) (inside : node < tree.size) {kind : Kind}
    (kind_eq : tree.kind (node : Int) = .ok kind) (open_kind : kind.isContainer = false) :
    (node : Int) ∈ handlesFrom decl.outer (decl.count - decl.outer) := by
  have size_eq := fills.size_eq
  rw [BinaryName.mem_handlesFrom]
  refine ⟨node, rfl, ?_, by omega⟩
  cases grammatical with
  | @bare file members isFile _ sound _ =>
      rw [outer_of_bare sound]
      by_cases first : node = 0
      · subst first
        rw [fills.planted.kind_eq, isFile] at kind_eq
        simp [← Except.ok.inj kind_eq, Kind.isContainer] at open_kind
      · omega
  | @packaged file package members isFile _ isPackage _ sound _ =>
      rw [outer_of_packaged isPackage]
      by_cases first : node = 0
      · subst first
        rw [fills.planted.kind_eq, isFile] at kind_eq
        simp [← Except.ok.inj kind_eq, Kind.isContainer] at open_kind
      · by_cases second : node = 1
        · subst second
          have package_kind := fills.planted.below.first.kind_eq
          rw [isPackage] at package_kind
          have same : Kind.package = kind := Except.ok.inj (package_kind.symm.trans kind_eq)
          simp [← same, Kind.isContainer] at open_kind
        · omega

end Decl

theorem ScopeTree.Designates.outcome_eq {tree : ScopeTree} {node : Handle}
    {designation : Designation} (designates : tree.Designates node designation) :
    (tree.className node).outcome tree = .ok designation.name := by
  obtain ⟨resolution, resolution_eq, name_eq, -⟩ := designates.resolves
  rw [Inquiry.outcome_eq_eval, className, Inquiry.eval_map, resolution_eq, ← name_eq]
  rfl

open ScopeTree in
/-- Different classes of a tidy file have different names, and none of them has the name of the
class that holds the functions of the file. -/
theorem Decl.Grammatical.generated_names_distinct {decl : Decl} {built : LabelledTree}
    (grammatical : decl.Grammatical) (laid : decl.layout = .ok built) (tidy : decl.Tidy)
    (unlike : decl.facade ∉ klassNames decl.members) :
    (∀ node other : Nat, node < built.tree.size → other < built.tree.size → node ≠ other →
        built.tree.Generates node → built.tree.Generates other →
        ∃ name otherName, (built.tree.className node).outcome built.tree = .ok name ∧
          (built.tree.className other).outcome built.tree = .ok otherName ∧ name ≠ otherName) ∧
      ∃ shared,
        (∀ function : Nat, function < built.tree.size →
          built.tree.plays .topLevelFunction function = .ok true →
          (built.tree.className function).outcome built.tree = .ok shared) ∧
        ∀ node : Nat, node < built.tree.size → built.tree.Generates node →
          ∃ name, (built.tree.className node).outcome built.tree = .ok name ∧ name ≠ shared := by
  have fills := fills_of_layout laid
  have ordered := fills.ordered
  have pairs := fills.designates_file grammatical
  obtain ⟨last, spread⟩ := grammatical.exists_spreadTop tidy unlike
  have listed : ∀ node : Nat, node < built.tree.size → built.tree.Generates node →
      (node : Int) ∈ handlesFrom decl.outer (decl.count - decl.outer) := by
    intro node inside generates
    obtain ⟨kind, kind_eq, open_kind⟩ := generates.not_container ordered inside
    exact grammatical.mem_handlesFrom fills inside kind_eq open_kind
  refine ⟨?_, decl.path ++ decl.facade, ?_, ?_⟩
  · intro node other inside other_inside differ generates also_generates
    obtain ⟨first, second, here, there, apart⟩ := exists_apart pairs spread.apart
      (listed node inside generates) (listed other other_inside also_generates)
      (fun equal => differ (Int.ofNat.inj equal))
    exact ⟨first.name, second.name, here.outcome_eq, there.outcome_eq,
      apart (here.generates ordered inside generates)
        (there.generates ordered other_inside also_generates)⟩
  · intro function inside top
    rw [judges_plays ordered .topLevelFunction function inside] at top
    have fits := Except.ok.inj top
    have kind_eq := kind_of_head? ordered inside (Role.head?_of_fits fits)
    obtain ⟨designation, member, designates⟩ :=
      exists_related_of_mem pairs (grammatical.mem_handlesFrom fills inside kind_eq rfl)
    obtain ⟨resolution, resolution_eq, -, rule_eq⟩ := designates.resolves
    rw [eval_resolve_topLevel ordered inside fits] at resolution_eq
    obtain ⟨_, _, -, -, resolution_eq⟩ := resolution_eq
    rw [resolution_eq] at rule_eq
    rw [designates.outcome_eq, spread.shared designation member rule_eq.symm]
  · intro node inside generates
    obtain ⟨designation, member, designates⟩ :=
      exists_related_of_mem pairs (listed node inside generates)
    obtain ⟨members_tidy, -⟩ := grammatical.tidy_members tidy
    exact ⟨designation.name, designates.outcome_eq, spread.ne_shared
      (fun _ klass_member => (plain_of_mem_klassNames members_tidy klass_member).1)
      decl.solid_facade unlike member (designates.generates ordered inside generates)⟩

/-- Both lambdas have the number one. -/
theorem Decl.Grammatical.generated_names_distinct_classBesideFunction :
    classBesideFunction.Grammatical ∧ classBesideFunction.Tidy ∧
      classBesideFunction.facade ∉ klassNames classBesideFunction.members ∧
      ∃ built, classBesideFunction.layout = .ok built ∧
        ∃ name otherName, (built.tree.className 3).outcome built.tree = .ok name ∧
          (built.tree.className 5).outcome built.tree = .ok otherName ∧ name ≠ otherName := by
  have tidy : classBesideFunction.Tidy := by
    have plain : Plain "A" := @plain_of_letter "A" 'A' (by simp [Solid]) (by simp) (by decide)
    simp [classBesideFunction, Tidy, TidyAll, klassNames, plain]
  have unlike : classBesideFunction.facade ∉ klassNames classBesideFunction.members := by
    have facade_eq : classBesideFunction.facade = "a_kt" := by cbv
    rw [facade_eq]
    decide
  exact ⟨grammatical_classBesideFunction, tidy, unlike, .ofTree besideTree,
    layout_classBesideFunction,
    (generated_names_distinct grammatical_classBesideFunction layout_classBesideFunction tidy
      unlike).1 3 5 (by decide) (by decide) (by decide) (Or.inr rfl) (Or.inr rfl)⟩

end BinaryName
