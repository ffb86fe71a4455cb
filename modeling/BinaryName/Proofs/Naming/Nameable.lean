import BinaryName.Proofs.Tree.Lineage

/-!
# Lineages of nodes with names

Nothing asks whether the kinds of a nest fit into each other, so not every node has a name.  Whether
it has one depends on its lineage alone: a rule gives the name, and the rule needs certain nodes
around the node, which need names in turn.
-/

namespace BinaryName

namespace Lineage

/-- A top-level class comes before the first file. -/
def hidden : List Kind → Bool
  | [] => false
  | kind :: above => kind != .file && (Role.topLevelClass.fits (kind :: above) || hidden above)

/-- The lineages of the nodes that have names. -/
inductive Nameable : List Kind → Prop
  /-- Around the classes there is a file or package. -/
  | klass {above : List Kind}
      (held : (above.dropWhile (· == .klass)).head?.any Kind.isContainer = true) :
      Nameable (.klass :: above)
  /-- A function in a file or package needs a file. -/
  | topLevelFunction {above : List Kind} (top : above.head?.any Kind.isContainer = true)
      (inFile : .file ∈ above) : Nameable (.function :: above)
  /-- A function in a class needs a name for the class. -/
  | memberFunction {above : List Kind} (outside : .function ∉ above)
      (outer : Nameable (.klass :: above)) : Nameable (.function :: .klass :: above)
  /-- A lambda or local function needs a name for the nearest base, and the base must not be hidden
  from its file. -/
  | anonymous {line base : List Kind} (counted : isAnonymous line = true)
      (below : Role.topLevelFunction.fits line = false)
      (nearest_eq : nearest isBase line.tail = some base) (outer : Nameable base)
      (met : ¬(Role.topLevelFunction.fits base = true ∧ hidden base.tail = true)) : Nameable line

/-- The top-level declaration around the node is a function that is hidden from its file. -/
def Missed (line : List Kind) : Prop :=
  ∃ top, nearest isTopLevel line.tail = some top ∧
    Role.topLevelFunction.fits top = true ∧ hidden top.tail = true

/-! ## Inversion -/

theorem nameable_klass_iff {above : List Kind} :
    Nameable (.klass :: above) ↔
      (above.dropWhile (· == .klass)).head?.any Kind.isContainer = true := by
  constructor
  · intro nameable
    cases nameable with
    | klass held => exact held
    | anonymous counted => simp [isAnonymous, Role.fits] at counted
  · exact Nameable.klass

theorem nameable_topLevel_iff {line : List Kind} (top : Role.topLevelFunction.fits line = true) :
    Nameable line ↔ .file ∈ line.tail := by
  constructor
  · intro nameable
    cases nameable with
    | klass => simp [Role.fits] at top
    | topLevelFunction _ inFile => exact inFile
    | memberFunction => simp [Role.fits, Kind.isContainer] at top
    | anonymous _ below => simp [top] at below
  · intro inFile
    rcases line with _ | ⟨kind, above⟩
    · simp at inFile
    · simp only [Role.fits, Bool.and_eq_true, beq_iff_eq] at top
      obtain ⟨rfl, container⟩ := top
      exact .topLevelFunction container inFile

theorem nameable_anonymous_iff {line : List Kind} (counted : isAnonymous line = true)
    (below : Role.topLevelFunction.fits line = false) :
    Nameable line ↔ ∃ base, nearest isBase line.tail = some base ∧ Nameable base ∧
      ¬(Role.topLevelFunction.fits base = true ∧ hidden base.tail = true) := by
  constructor
  · intro nameable
    cases nameable with
    | klass => simp [isAnonymous, Role.fits] at counted
    | topLevelFunction top => simp [Role.fits, top] at below
    | memberFunction outside => simp [isAnonymous, Role.fits, outside] at counted
    | anonymous _ _ nearest_eq outer met => exact ⟨_, nearest_eq, outer, met⟩
  · rintro ⟨base, nearest_eq, outer, met⟩
    exact .anonymous counted below nearest_eq outer met

theorem not_nameable_of_misfit {line : List Kind} (not_klass : line.head? ≠ some .klass)
    (not_top : Role.topLevelFunction.fits line = false) (not_anonymous : isAnonymous line = false)
    (not_member : Role.memberFunction.fits line = false) : ¬Nameable line := by
  intro nameable
  cases nameable with
  | klass => simp at not_klass
  | topLevelFunction top => simp [Role.fits, top] at not_top
  | memberFunction => simp [Role.fits] at not_member
  | anonymous counted => simp [counted] at not_anonymous

/-! ## The top-level declaration around a base -/

theorem nearest_of_weaker {strong weak : List Kind → Bool}
    (implies : ∀ line, strong line = true → weak line = true) {line found : List Kind}
    (nearest_eq : nearest weak line = some found) : nearest strong line = nearest strong found := by
  induction line with
  | nil => simp [nearest] at nearest_eq
  | cons kind above ih =>
      rw [nearest] at nearest_eq
      cases passes : weak (kind :: above) with
      | true =>
          rw [passes, if_pos rfl] at nearest_eq
          rw [Option.some.inj nearest_eq]
      | false =>
          have fails : strong (kind :: above) = false := by
            rw [Bool.eq_false_iff]
            intro holds
            simp [implies _ holds] at passes
          rw [passes, if_neg Bool.false_ne_true] at nearest_eq
          rw [nearest, fails, if_neg Bool.false_ne_true, ih nearest_eq]

theorem isBase_of_isTopLevel (line : List Kind) (top : isTopLevel line = true) :
    isBase line = true := by
  rw [isTopLevel, Bool.or_eq_true] at top
  rcases top with klass | function
  · simp [isBase, Role.head?_of_fits klass, Role.kind]
  · simp [isBase, function]

theorem nearest_of_passes {test : List Kind → Bool} {line : List Kind} (passes : test line = true)
    (nonempty : line ≠ []) : nearest test line = some line := by
  cases line with
  | nil => exact absurd rfl nonempty
  | cons kind above => rw [nearest, passes, if_pos rfl]

/-- The outermost of the classes around a class with a name is top-level. -/
theorem exists_topLevelClass {above : List Kind} (nameable : Nameable (.klass :: above)) :
    ∃ top, nearest isTopLevel (.klass :: above) = some top ∧
      Role.topLevelClass.fits top = true := by
  rw [nameable_klass_iff] at nameable
  induction above with
  | nil => simp at nameable
  | cons kind above ih =>
      by_cases inner : kind = .klass
      · subst inner
        have below : isTopLevel (.klass :: .klass :: above) = false := by
          simp [isTopLevel, Role.fits, Kind.isContainer]
        rw [nearest, below, if_neg Bool.false_ne_true]
        exact ih (by simpa using nameable)
      · have outermost : Role.topLevelClass.fits (.klass :: kind :: above) = true := by
          simpa [Role.fits, inner] using nameable
        refine ⟨_, nearest_of_passes ?_ (by simp), outermost⟩
        rw [isTopLevel, outermost, Bool.true_or]

theorem isBase_cases {line : List Kind} (base : isBase line = true) :
    (∃ above, line = .klass :: above) ∨ Role.topLevelFunction.fits line = true ∨
      ∃ above, line = .function :: .klass :: above := by
  rw [isBase, Bool.or_eq_true, Bool.or_eq_true, beq_iff_eq] at base
  rcases base with klass | top | member
  · obtain ⟨above, rfl⟩ := List.head?_eq_some_iff.mp klass
    exact Or.inl ⟨above, rfl⟩
  · exact Or.inr (Or.inl top)
  · rcases line with _ | ⟨kind, _ | ⟨parent, above⟩⟩ <;> simp [Role.fits] at member
    obtain ⟨rfl, rfl⟩ := member
    exact Or.inr (Or.inr ⟨above, rfl⟩)

/-- The class of a function with a name has a name, also if the function is counted itself. -/
theorem nameable_klass_of_member {above : List Kind}
    (nameable : Nameable (.function :: .klass :: above)) : Nameable (.klass :: above) := by
  cases nameable with
  | topLevelFunction top => simp [Kind.isContainer] at top
  | memberFunction _ outer => exact outer
  | @anonymous _ base _ _ nearest_eq outer _ =>
      have here : nearest isBase (.klass :: above) = some (.klass :: above) :=
        nearest_of_passes (by simp [isBase]) (by simp)
      rw [List.tail_cons, here] at nearest_eq
      rwa [Option.some.inj nearest_eq]

/-- A base with a name is a top-level function, or it is in a top-level class. -/
theorem exists_topLevel_of_base {base : List Kind} (isBase_eq : isBase base = true)
    (nameable : Nameable base) :
    ∃ top, nearest isTopLevel base = some top ∧
      (Role.topLevelClass.fits top = true ∨
        Role.topLevelFunction.fits top = true ∧ top = base) := by
  rcases isBase_cases isBase_eq with ⟨above, rfl⟩ | function | ⟨above, rfl⟩
  · obtain ⟨top, top_eq, fits⟩ := exists_topLevelClass nameable
    exact ⟨top, top_eq, Or.inl fits⟩
  · have nonempty : base ≠ [] := by
      rintro rfl
      simp [Role.fits] at function
    refine ⟨base, nearest_of_passes ?_ nonempty, Or.inr ⟨function, rfl⟩⟩
    rw [isTopLevel, function, Bool.or_true]
  · obtain ⟨top, top_eq, fits⟩ := exists_topLevelClass (nameable_klass_of_member nameable)
    have below : isTopLevel (.function :: .klass :: above) = false := by
      simp [isTopLevel, Role.fits, Kind.isContainer]
    exact ⟨top, by rw [nearest, below, if_neg Bool.false_ne_true, top_eq], Or.inl fits⟩

theorem missed_iff_of_base {line base : List Kind}
    (nearest_eq : nearest isBase line.tail = some base)
    (nameable : Nameable base) :
    Missed line ↔
      Role.topLevelFunction.fits base = true ∧ hidden base.tail = true := by
  obtain ⟨top, top_eq, fits⟩ :=
    exists_topLevel_of_base (passes_of_nearest nearest_eq) nameable
  have line_eq := nearest_of_weaker isBase_of_isTopLevel nearest_eq
  rw [Missed, line_eq, top_eq]
  rcases fits with klass | ⟨function, rfl⟩
  · have not_function : Role.topLevelFunction.fits top = false :=
      Role.not_fits_of_fits klass (by decide)
    have not_base : Role.topLevelFunction.fits base = false := by
      rw [Bool.eq_false_iff]
      intro function
      have passes : isTopLevel base = true := by
        rw [isTopLevel, function, Bool.or_true]
      have nonempty : base ≠ [] := by
        rintro rfl
        simp [Role.fits] at function
      rw [nearest_of_passes passes nonempty] at top_eq
      rw [Option.some.inj top_eq, not_function] at function
      simp at function
    simp [not_function, not_base]
  · simp

end Lineage

end BinaryName
