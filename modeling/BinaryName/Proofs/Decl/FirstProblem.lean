import BinaryName.Proofs.Decl.Unfolding

/-!
# The first problem of an outline

Unfolding an outline meets its entries in preorder, a shared entry at every place that names it.
The entry that is met first among those that fail decides the fault, whatever follows it and
whatever is in it.  An entry fails by what it is and by the labels that have been met before it.
-/

namespace BinaryName

/-! ## Entries that fail -/

namespace Entry

/-- The label of an entry. -/
def label? : Entry → Option String
  | .declaration head _ => head.label
  | .foreign _ => none

/-- The entry cannot come after others with the given labels.  A name that is missing weighs more
than a label that has been met. -/
inductive Fails (met : List String) : Entry → TreeFault → Prop
  /-- The entry is no declaration. -/
  | foreign (sort : ValueSort) : Fails met (.foreign sort) (.notADeclaration sort)
  /-- The name is missing, and the fault mentions the kind. -/
  | nameless {head : Head} {children : List Nat} {title : String} (name_eq : head.name = none)
      (other : head.kind ≠ .lambda) (title_eq : head.kind.title? = some title) :
      Fails met (.declaration head children) (.nameless title)
  /-- The name is missing, and the kind has no title that could be mentioned. -/
  | untitled {head : Head} {children : List Nat} (name_eq : head.name = none)
      (other : head.kind ≠ .lambda) (title_eq : head.kind.title? = none) :
      Fails met (.declaration head children) .untitledKind
  /-- The label has been met. -/
  | relabelled {head : Head} {children : List Nat} {label : String}
      (named : head.name = none → head.kind = .lambda) (label_eq : head.label = some label)
      (member : label ∈ met) : Fails met (.declaration head children) (.duplicateLabel label)

end Entry

namespace Outline

open Decl

/-- The labels of some entries. -/
def labelsOf (entries : List Entry) : List String :=
  entries.filterMap Entry.label?

/-- None of some entries fails where it is met, when labels have been met before all of them. -/
def Passes (met : List String) (entries : List Entry) : Prop :=
  ∀ before entry after, entries = before ++ entry :: after →
    ∀ fault, ¬entry.Fails (met ++ labelsOf before) fault

variable {outline entries : List Entry} {met : List String} {entry : Entry} {fault : TreeFault}

theorem labelTexts_map_content (entries : List Entry) :
    labelTexts (entries.map Entry.content) = labelsOf entries := by
  rw [labelTexts, List.filterMap_map, labelsOf]
  congr 1
  funext entry
  cases entry <;> rfl

theorem labelsOf_append (before after : List Entry) :
    labelsOf (before ++ after) = labelsOf before ++ labelsOf after :=
  List.filterMap_append

theorem fails_iff : entry.Fails met fault ↔ problem? met [entry.content] = some fault := by
  cases entry with
  | foreign sort =>
      constructor
      · rintro ⟨⟩
        rfl
      · intro problem
        obtain rfl : TreeFault.notADeclaration sort = fault := Option.some.inj problem
        exact .foreign sort
  | declaration head children =>
      rw [Entry.content, problem?, problem?, Option.or_none, Head.objection?]
      constructor
      · rintro (_ | ⟨name_eq, other, title_eq⟩ | ⟨name_eq, other, title_eq⟩ |
          ⟨named, label_eq, member⟩)
        · rw [if_pos ⟨name_eq, other⟩, title_eq]
        · rw [if_pos ⟨name_eq, other⟩, title_eq]
        · rw [if_neg fun missing => missing.2 (named missing.1), label_eq, Option.bind_some,
            if_pos member]
      · intro problem
        by_cases missing : head.name = none ∧ head.kind ≠ .lambda
        · rw [if_pos missing] at problem
          cases title_eq : head.kind.title? with
          | some title =>
              rw [title_eq] at problem
              obtain rfl := Option.some.inj problem
              exact .nameless missing.1 missing.2 title_eq
          | none =>
              rw [title_eq] at problem
              obtain rfl := Option.some.inj problem
              exact .untitled missing.1 missing.2 title_eq
        · rw [if_neg missing] at problem
          obtain ⟨label, label_eq, problem⟩ := Option.bind_eq_some_iff.mp problem
          by_cases member : label ∈ met
          · rw [if_pos member] at problem
            obtain rfl := Option.some.inj problem
            exact .relabelled (fun name_eq => by_contra fun other => missing ⟨name_eq, other⟩)
              label_eq member
          · simp [member] at problem

theorem problem?_cons_content (met : List String) (entry : Entry) (rest : List Entry) :
    problem? met ((entry :: rest).map Entry.content) =
      (problem? met [entry.content]).or
        (problem? (met ++ labelsOf [entry]) (rest.map Entry.content)) := by
  rw [← labelTexts_map_content, List.map_cons, ← List.singleton_append, problem?_append]
  rfl

theorem passes_cons {rest : List Entry} :
    Passes met (entry :: rest) ↔
      (∀ fault, ¬entry.Fails met fault) ∧ Passes (met ++ labelsOf [entry]) rest := by
  constructor
  · intro passes
    refine ⟨by simpa [labelsOf] using passes [] entry rest rfl, ?_⟩
    intro before later after split
    have passed := passes (entry :: before) later after (by rw [split, List.cons_append])
    rwa [← List.singleton_append, labelsOf_append, ← List.append_assoc] at passed
  · rintro ⟨first, others⟩ before later after split
    cases before with
    | nil =>
        obtain ⟨rfl, -⟩ := List.cons_eq_cons.mp split
        simpa [labelsOf] using first
    | cons same before =>
        obtain ⟨rfl, rest_eq⟩ := List.cons_eq_cons.mp split
        have passed := others before later after rest_eq
        rwa [List.append_assoc, ← labelsOf_append] at passed

theorem problem?_eq_none_iff :
    problem? met (entries.map Entry.content) = none ↔ Passes met entries := by
  induction entries generalizing met with
  | nil => simp [problem?, Passes]
  | cons entry rest ih =>
      rw [problem?_cons_content, Option.or_eq_none_iff, ih, passes_cons]
      refine and_congr_left' ?_
      simp only [fails_iff, Option.eq_none_iff_forall_ne_some, ne_eq]

/-- The first problem is that of the entry that fails after others that pass. -/
theorem problem?_eq_some_iff :
    problem? met (entries.map Entry.content) = some fault ↔
      ∃ before entry after, entries = before ++ entry :: after ∧ Passes met before ∧
        entry.Fails (met ++ labelsOf before) fault := by
  constructor
  · intro problem
    induction entries generalizing met with
    | nil => simp [problem?] at problem
    | cons entry rest ih =>
        rw [problem?_cons_content, Option.or_eq_some_iff] at problem
        rcases problem with here | ⟨passes, later⟩
        · refine ⟨[], entry, rest, rfl, by simp [Passes], fails_iff.mpr ?_⟩
          rwa [labelsOf, List.filterMap_nil, List.append_nil]
        · obtain ⟨before, failing, after, split, passed, fails⟩ := ih later
          refine ⟨entry :: before, failing, after, by rw [split, List.cons_append],
            passes_cons.mpr ⟨fun other failed => ?_, passed⟩, ?_⟩
          · rw [fails_iff.mp failed] at passes
            contradiction
          · rwa [← List.singleton_append, labelsOf_append, ← List.append_assoc]
  · rintro ⟨before, entry, after, rfl, passes, fails⟩
    rw [List.map_append, problem?_append, problem?_eq_none_iff.mpr passes, Option.none_or,
      labelTexts_map_content, problem?_cons_content, fails_iff.mp fails, Option.some_or]

/-- A label that has been met makes its entry fail, unless its name does. -/
theorem exists_fails_of_label {label : String} (label_eq : entry.label? = some label)
    (member : label ∈ met) : ∃ fault, entry.Fails met fault := by
  cases entry with
  | foreign sort => simp [Entry.label?] at label_eq
  | declaration head children =>
      cases objection : head.objection? met with
      | some fault => exact ⟨fault, fails_iff.mpr (by simp [Entry.content, problem?, objection])⟩
      | none => exact ⟨_, .relabelled (head.named_of_objection? objection) label_eq member⟩

theorem not_passes_of_met_twice {label : String} (label_eq : entry.label? = some label)
    (twice : 2 ≤ entries.count entry) : ¬Passes met entries := by
  intro passes
  obtain ⟨before, rest, split, notMem⟩ :=
    List.eq_append_cons_of_mem (List.count_pos_iff.mp (by omega : 0 < entries.count entry))
  have again : entry ∈ rest := by
    rw [split, List.count_append, List.count_eq_zero.mpr notMem, List.count_cons_self] at twice
    exact List.count_pos_iff.mp (by omega)
  obtain ⟨between, after, rfl⟩ := List.append_of_mem again
  have member : label ∈ labelsOf (before ++ entry :: between) :=
    List.mem_filterMap.mpr ⟨entry, by simp, label_eq⟩
  obtain ⟨fault, fails⟩ :=
    exists_fails_of_label label_eq (List.mem_append_right met member)
  exact passes _ entry after (by rw [split, List.append_assoc, List.cons_append]) fault fails

/-- Laying out an acyclic outline has the outcome that its entries decide, in the order in which
unfolding meets them.  The fault is that of the first entry that fails, whatever comes after, and if
none fails there is a layout.  There is none if a labelled entry is met twice. -/
theorem layout_reports_first_problem (acyclic : Acyclic outline) :
    ∃ decl entries, toDecl? outline = some decl ∧
      (∀ others, Unfolds outline [0] others ↔ others = entries) ∧
      (∀ fault, decl.layout = .error fault ↔
        ∃ before entry after, entries = before ++ entry :: after ∧ Passes [] before ∧
          entry.Fails (labelsOf before) fault) ∧
      ((∃ built, decl.layout = .ok built) ↔ Passes [] entries) ∧
      ∀ entry label, entry.label? = some label → 2 ≤ entries.count entry →
        ∃ fault, decl.layout = .error fault := by
  obtain ⟨decl, route, entries, unfolds, visits, route_eq, content_eq⟩ := acyclic.exists_visits
  have met : Unfolds outline [0] entries := ⟨route, visits, route_eq⟩
  have passes_iff : (∃ built, decl.layout = .ok built) ↔ Passes [] entries := by
    rw [← problem?_eq_none_iff, content_eq]
    constructor
    · rintro ⟨built, laid⟩
      exact ((layout_eq_ok_iff decl built).mp laid).1
    · exact exists_layout
  refine ⟨decl, entries, unfolds,
    fun others => ⟨fun also => also.unique met, fun same => same ▸ met⟩, ?_, passes_iff, ?_⟩
  · intro fault
    rw [layout_eq_error_iff, ← content_eq, problem?_eq_some_iff]
    rfl
  · intro entry label label_eq twice
    cases outcome : decl.layout with
    | error fault => exact ⟨fault, rfl⟩
    | ok built =>
        exact absurd (passes_iff.mp ⟨built, outcome⟩) (not_passes_of_met_twice label_eq twice)

/-- A file that names a labelled class twice, then a number and a class without a name. -/
def labelShared : List Entry :=
  [.declaration { kind := .file, name := some "a.kt", label := none, expected := none }
      [1, 1, 2, 3],
    .declaration { kind := .klass, name := some "A", label := some "it", expected := none } [4],
    .foreign .integer,
    .declaration { kind := .klass, name := none, label := none, expected := none } [],
    .declaration { kind := .lambda, name := none, label := none, expected := none } []]

/-- The class fails where it is met again, before the number and the class without a name. -/
theorem layout_reports_first_problem_labelShared :
    ∃ decl entries, toDecl? labelShared = some decl ∧ Unfolds labelShared [0] entries ∧
      entries.length = 7 ∧ (∃ fault, decl.layout = .error fault) ∧
      decl.layout = .error (.duplicateLabel "it") ∧
      ∃ before entry after, entries = before ++ entry :: after ∧ Passes [] before ∧
        entry.Fails (labelsOf before) (.duplicateLabel "it") := by
  let klassHead : Head := { Head.unmarked .klass "A" with label := some "it" }
  let klass : Entry := .declaration klassHead [4]
  let lambda : Entry := .declaration (.unmarked .lambda none) []
  let nested : Decl := .declare klassHead [.declare (.unmarked .lambda none) []]
  let decl : Decl :=
    .declare (.unmarked .file "a.kt")
      [nested, nested, .foreign .integer, .declare (.unmarked .klass none) []]
  have unfolds : toDecl? labelShared = some decl := rfl
  have visits : Visits labelShared [0] [0, 1, 4, 1, 4, 2, 3] :=
    .visit rfl <| .visit rfl <| .visit rfl <| .visit rfl <| .visit rfl <| .visit rfl <|
      .visit rfl .done
  have met : Unfolds labelShared [0]
      [.declaration (.unmarked .file "a.kt") [1, 1, 2, 3], klass, lambda, klass, lambda,
        .foreign .integer, .declaration (.unmarked .klass none) []] := ⟨_, visits, rfl⟩
  have acyclic : Acyclic labelShared := acyclic_of_forward (by decide) (by decide)
  obtain ⟨given, entries, given_eq, unique, fault_iff, -, twice⟩ :=
    layout_reports_first_problem acyclic
  obtain rfl : decl = given := Option.some.inj (unfolds.symm.trans given_eq)
  obtain rfl := (unique _).mp met
  have refused : decl.layout = .error (.duplicateLabel "it") :=
    (layout_eq_error_iff decl _).mpr rfl
  exact ⟨decl, _, unfolds, met, rfl, twice klass "it" rfl (by decide), refused,
    (fault_iff _).mp refused⟩

end Outline

end BinaryName
