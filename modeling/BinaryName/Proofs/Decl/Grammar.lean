import BinaryName.Proofs.Decl.Planted

/-!
# The grammar of a file

A file holds one package or the members of a package.  A member is a class, which holds members, or
a function, which holds code: functions and lambdas, which hold code again.
-/

namespace BinaryName

namespace Decl

mutual

/-- The nest is a function or lambda in code. -/
def IsCode : Decl → Prop
  | .declare head children =>
      (head.kind = .function ∧ head.name ≠ none ∨ head.kind = .lambda) ∧ AreCode children
  | .foreign _ => False

/-- The nests are functions and lambdas in code. -/
def AreCode : List Decl → Prop
  | [] => True
  | decl :: rest => decl.IsCode ∧ AreCode rest

end

mutual

/-- The nest is a class or function in a class, file or package. -/
def IsMember : Decl → Prop
  | .declare head children =>
      head.name ≠ none ∧
        (head.kind = .klass ∧ AreMembers children ∨ head.kind = .function ∧ AreCode children)
  | .foreign _ => False

/-- The nests are classes and functions. -/
def AreMembers : List Decl → Prop
  | [] => True
  | decl :: rest => decl.IsMember ∧ AreMembers rest

end

/-- A file whose labels are pairwise distinct. -/
inductive Grammatical : Decl → Prop
  /-- The file holds its members itself. -/
  | bare {file : Head} {members : List Decl} (isFile : file.kind = .file) (named : file.name ≠ none)
      (sound : AreMembers members)
      (distinct : (labelTexts (declare file members).entries).Nodup) :
      Grammatical (.declare file members)
  /-- The file holds a package with the members. -/
  | packaged {file package : Head} {members : List Decl} (isFile : file.kind = .file)
      (named : file.name ≠ none) (isPackage : package.kind = .package)
      (package_named : package.name ≠ none) (sound : AreMembers members)
      (distinct : (labelTexts (declare file [.declare package members]).entries).Nodup) :
      Grammatical (.declare file [.declare package members])

/-- A file with a class and a function, and a lambda in each of them. -/
def classBesideFunction : Decl :=
  let lambda : Decl := .declare (.unmarked .lambda none) []
  .declare (.unmarked .file "a.kt")
    [.declare (.unmarked .klass "A") [.declare (.unmarked .function "m") [lambda]],
      .declare (.unmarked .function "f") [lambda]]

theorem grammatical_classBesideFunction : classBesideFunction.Grammatical := by
  refine .bare rfl (by decide) ?_ (by decide)
  simp [AreMembers, IsMember, AreCode, IsCode]

/-- Its tree. -/
def besideTree : ScopeTree :=
  { records :=
      #[{ kind := .file, name := some "a.kt", parent := none, children := [1, 4] },
        { kind := .klass, name := some "A", parent := some 0, children := [2] },
        { kind := .function, name := some "m", parent := some 1, children := [3] },
        { kind := .lambda, name := none, parent := some 2, children := [] },
        { kind := .function, name := some "f", parent := some 0, children := [5] },
        { kind := .lambda, name := none, parent := some 4, children := [] }]
    size_pos := by decide
    parent_root := rfl }

theorem layout_classBesideFunction : classBesideFunction.layout = .ok (.ofTree besideTree) :=
  (layout_eq _).trans rfl

theorem areMembers_append {before after : List Decl} (sound : AreMembers (before ++ after)) :
    AreMembers before ∧ AreMembers after := by
  induction before with
  | nil => exact ⟨trivial, sound⟩
  | cons decl rest ih =>
      obtain ⟨rest_sound, after_sound⟩ := ih sound.2
      exact ⟨⟨sound.1, rest_sound⟩, after_sound⟩

/-- The entry is a head that has a name unless it is that of a lambda. -/
def NamedEntry (entry : Except ValueSort Head) : Prop :=
  ∃ head, entry = .ok head ∧ (head.name = none → head.kind = .lambda)

theorem namedEntry_of_name {head : Head} (named : head.name ≠ none) : NamedEntry (.ok head) :=
  ⟨head, rfl, fun nameless => absurd nameless named⟩

mutual

theorem namedEntry_of_isCode :
    ∀ decl : Decl, decl.IsCode → ∀ entry ∈ decl.entries, NamedEntry entry
  | .declare head children, code, entry, member => by
      rw [IsCode] at code
      rw [entries] at member
      rcases List.mem_cons.mp member with rfl | below
      · rcases code.1 with ⟨-, named⟩ | lambda
        · exact namedEntry_of_name named
        · exact ⟨head, rfl, fun _ => lambda⟩
      · exact namedEntry_of_areCode children code.2 entry below
  | .foreign _, code, _, _ => code.elim

theorem namedEntry_of_areCode :
    ∀ decls : List Decl, AreCode decls → ∀ entry ∈ entriesAll decls, NamedEntry entry
  | [], _, entry, member => by simp [entriesAll] at member
  | decl :: rest, code, entry, member => by
      rw [entriesAll] at member
      rcases List.mem_append.mp member with first | later
      · exact namedEntry_of_isCode decl code.1 entry first
      · exact namedEntry_of_areCode rest code.2 entry later

end

mutual

theorem namedEntry_of_isMember :
    ∀ decl : Decl, decl.IsMember → ∀ entry ∈ decl.entries, NamedEntry entry
  | .declare head children, sound, entry, member => by
      rw [IsMember] at sound
      rw [entries] at member
      rcases List.mem_cons.mp member with rfl | below
      · exact namedEntry_of_name sound.1
      · rcases sound.2 with ⟨-, members⟩ | ⟨-, code⟩
        · exact namedEntry_of_areMembers children members entry below
        · exact namedEntry_of_areCode children code entry below
  | .foreign _, sound, _, _ => sound.elim

theorem namedEntry_of_areMembers :
    ∀ decls : List Decl, AreMembers decls → ∀ entry ∈ entriesAll decls, NamedEntry entry
  | [], _, entry, member => by simp [entriesAll] at member
  | decl :: rest, sound, entry, member => by
      rw [entriesAll] at member
      rcases List.mem_append.mp member with first | later
      · exact namedEntry_of_isMember decl sound.1 entry first
      · exact namedEntry_of_areMembers rest sound.2 entry later

end

theorem problem?_of_named {entries : List (Except ValueSort Head)} {taken : List String}
    (named : ∀ entry ∈ entries, NamedEntry entry) (distinct : (taken ++ labelTexts entries).Nodup) :
    problem? taken entries = none := by
  induction entries generalizing taken with
  | nil => rfl
  | cons entry rest ih =>
      obtain ⟨head, rfl, nameless⟩ := named entry List.mem_cons_self
      rw [labelTexts_cons, ← List.append_assoc] at distinct
      have free : head.objection? taken = none := by
        rw [Head.objection?, if_neg fun needs => needs.2 (nameless needs.1)]
        cases label_eq : head.label with
        | none => rfl
        | some label =>
            have new : label ∉ taken := by
              intro member
              rw [label_eq, List.append_assoc] at distinct
              exact (List.nodup_append.mp distinct).2.2 label member label (by simp) rfl
            simp [new]
      have others : problem? (taken ++ head.label.toList) rest = none :=
        ih (fun other member => named other (List.mem_cons_of_mem _ member)) distinct
      rw [problem?, free, others]
      rfl

/-- A grammatical file can be laid out. -/
theorem Grammatical.exists_layout {decl : Decl} (grammatical : decl.Grammatical) :
    ∃ built, decl.layout = .ok built := by
  apply Decl.exists_layout
  cases grammatical with
  | @bare file members _ named sound distinct =>
      refine problem?_of_named (fun entry member => ?_) distinct
      rw [entries] at member
      rcases List.mem_cons.mp member with rfl | below
      · exact namedEntry_of_name named
      · exact namedEntry_of_areMembers members sound entry below
  | @packaged file package members _ named _ package_named sound distinct =>
      refine problem?_of_named (fun entry member => ?_) distinct
      simp only [entries, entriesAll, List.append_nil, List.mem_cons] at member
      rcases member with rfl | rfl | below
      · exact namedEntry_of_name named
      · exact namedEntry_of_name package_named
      · exact namedEntry_of_areMembers members sound entry below

end Decl

end BinaryName
