import BinaryName.Proofs.Decl.Grammar

/-!
# Lambdas put into a nest

A lambda that is put among the declarations of a function or lambda gets the handle of what came
next, and everything from there on moves up by one.  The nest has the same labels as before, and it
follows the grammar if it did.
-/

namespace BinaryName

namespace Decl

/-- The second nest is the first one with a lambda more, which has no label and nothing in it and is
among the declarations of a function or lambda.  The place is that of the lambda in preorder. -/
inductive LambdaAdded : Nat → Decl → Decl → Prop
  /-- The lambda is put among the declarations of the head. -/
  | here {head lambda : Head} (before after : List Decl)
      (code : head.kind = .function ∨ head.kind = .lambda) (isLambda : lambda.kind = .lambda)
      (unlabelled : lambda.label = none) :
      LambdaAdded (countAll before + 1) (.declare head (before ++ after))
        (.declare head (before ++ .declare lambda [] :: after))
  /-- The lambda is put into one of the declarations of the head. -/
  | inside {head : Head} {place : Nat} {nest edited : Decl} (before after : List Decl)
      (added : LambdaAdded place nest edited) :
      LambdaAdded (countAll before + 1 + place) (.declare head (before ++ nest :: after))
        (.declare head (before ++ edited :: after))

variable {place : Nat} {nest edited : Decl}

theorem LambdaAdded.count_eq (added : LambdaAdded place nest edited) :
    edited.count = nest.count + 1 := by
  induction added with
  | here before after _ _ _ =>
      simp only [count, countAll_append, countAll]
      omega
  | inside before after _ ih =>
      simp only [count, countAll_append, countAll, ih]
      omega

theorem LambdaAdded.place_le (added : LambdaAdded place nest edited) : place ≤ nest.count := by
  induction added with
  | here before after _ _ _ =>
      simp only [count, countAll_append]
      omega
  | inside before after _ ih =>
      simp only [count, countAll_append, countAll]
      omega

theorem entriesAll_append (before after : List Decl) :
    entriesAll (before ++ after) = entriesAll before ++ entriesAll after := by
  induction before with
  | nil => rfl
  | cons decl rest ih => rw [List.cons_append, entriesAll, entriesAll, ih, List.append_assoc]

theorem labelTexts_append (front rest : List (Except ValueSort Head)) :
    labelTexts (front ++ rest) = labelTexts front ++ labelTexts rest :=
  List.filterMap_append

theorem LambdaAdded.labelTexts_eq (added : LambdaAdded place nest edited) :
    labelTexts edited.entries = labelTexts nest.entries := by
  induction added with
  | here before after _ _ unlabelled =>
      simp [entries, entriesAll, entriesAll_append, labelTexts_cons, labelTexts_append, unlabelled]
  | inside before after _ ih =>
      simp [entries, entriesAll, entriesAll_append, labelTexts_cons, labelTexts_append, ih]

/-! ## The grammar is kept -/

theorem areCode_insert {lambda : Head} (isLambda : lambda.kind = .lambda) {before after : List Decl}
    (code : AreCode (before ++ after)) : AreCode (before ++ .declare lambda [] :: after) := by
  induction before with
  | nil => exact ⟨⟨Or.inr isLambda, trivial⟩, code⟩
  | cons decl rest ih => exact ⟨code.1, ih code.2⟩

theorem areCode_replace {before after : List Decl} (keeps : nest.IsCode → edited.IsCode)
    (code : AreCode (before ++ nest :: after)) : AreCode (before ++ edited :: after) := by
  induction before with
  | nil => exact ⟨keeps code.1, code.2⟩
  | cons decl rest ih => exact ⟨code.1, ih code.2⟩

theorem areMembers_replace {before after : List Decl} (keeps : nest.IsMember → edited.IsMember)
    (sound : AreMembers (before ++ nest :: after)) : AreMembers (before ++ edited :: after) := by
  induction before with
  | nil => exact ⟨keeps sound.1, sound.2⟩
  | cons decl rest ih => exact ⟨sound.1, ih sound.2⟩

theorem LambdaAdded.keeps_grammar (added : LambdaAdded place nest edited) :
    (nest.IsCode → edited.IsCode) ∧ (nest.IsMember → edited.IsMember) := by
  induction added with
  | here before after code isLambda _ =>
      refine ⟨fun sound => ⟨sound.1, areCode_insert isLambda sound.2⟩, fun sound => ⟨sound.1, ?_⟩⟩
      rcases sound.2 with ⟨klass, -⟩ | ⟨function, inner⟩
      · simp [klass] at code
      · exact Or.inr ⟨function, areCode_insert isLambda inner⟩
  | inside before after _ ih =>
      refine ⟨fun sound => ⟨sound.1, areCode_replace ih.1 sound.2⟩, fun sound => ⟨sound.1, ?_⟩⟩
      rcases sound.2 with ⟨klass, members⟩ | ⟨function, inner⟩
      · exact Or.inl ⟨klass, areMembers_replace ih.2 members⟩
      · exact Or.inr ⟨function, areCode_replace ih.1 inner⟩

/-- Below a head that holds no code the lambda is in one of the declarations. -/
theorem LambdaAdded.cases_of_declare {head : Head} {children : List Decl}
    (added : LambdaAdded place (.declare head children) edited)
    (other : ¬(head.kind = .function ∨ head.kind = .lambda)) :
    ∃ (before after : List Decl) (nest changed : Decl) (inner : Nat),
      children = before ++ nest :: after ∧ edited = .declare head (before ++ changed :: after) ∧
        LambdaAdded inner nest changed := by
  cases added with
  | here before after code _ _ => exact absurd code other
  | inside before after inner => exact ⟨before, after, _, _, _, rfl, rfl, inner⟩

/-- A grammatical file is grammatical with the lambda. -/
theorem LambdaAdded.grammatical (added : LambdaAdded place nest edited)
    (grammatical : nest.Grammatical) : edited.Grammatical := by
  have labels_eq := added.labelTexts_eq
  cases grammatical with
  | @bare file members isFile named sound distinct =>
      rw [← labels_eq] at distinct
      obtain ⟨before, after, member, changed, _, rfl, rfl, inner⟩ :=
        added.cases_of_declare (by simp [isFile])
      exact .bare isFile named (areMembers_replace inner.keeps_grammar.2 sound) distinct
  | @packaged file package members isFile named isPackage package_named sound distinct =>
      rw [← labels_eq] at distinct
      obtain ⟨before, after, held, changed, _, held_eq, rfl, inner⟩ :=
        added.cases_of_declare (by simp [isFile])
      obtain ⟨rfl, rfl, rfl⟩ : before = [] ∧ held = .declare package members ∧ after = [] := by
        simpa [List.append_eq_singleton_iff, eq_comm] using held_eq
      obtain ⟨front, back, member, replaced, _, rfl, rfl, innermost⟩ :=
        inner.cases_of_declare (by simp [isPackage])
      exact .packaged isFile named isPackage package_named
        (areMembers_replace innermost.keeps_grammar.2 sound) distinct

end Decl

end BinaryName
