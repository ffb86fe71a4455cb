/-!
# Segments of names

A name extends another if it is the same or goes on with a `$`.  Where the parts between hold no `$`
themselves, a name can be taken apart at its last `$`, and right after a common start.
-/

namespace BinaryName

/-- The text holds no `$`. -/
def Solid (text : String) : Prop := '$' ∉ text.toList

/-- The name is the other, or it goes on with a `$` after it. -/
def Extends (start name : String) : Prop := name = start ∨ ∃ rest, name = start ++ "$" ++ rest

namespace Extends

theorem refl (start : String) : Extends start start := Or.inl rfl

theorem step (start rest : String) : Extends start (start ++ "$" ++ rest) := Or.inr ⟨rest, rfl⟩

theorem trans {start middle name : String} (first : Extends start middle)
    (second : Extends middle name) : Extends start name := by
  rcases second with rfl | ⟨rest, rfl⟩
  · exact first
  · rcases first with rfl | ⟨between, rfl⟩
    · exact step middle rest
    · exact Or.inr ⟨between ++ "$" ++ rest, by simp only [String.append_assoc]⟩

theorem exists_rest {start name : String} (continues : Extends start name) :
    ∃ rest, name.toList = start.toList ++ rest ∧ ∀ char ∈ rest.head?, char = '$' := by
  rcases continues with rfl | ⟨rest, rfl⟩
  · exact ⟨[], by simp⟩
  · exact ⟨'$' :: rest.toList, by simp⟩

/-- A name that goes on is longer. -/
theorem ne_start {start middle : String} (continues : Extends start middle) (rest : String) :
    middle ++ "$" ++ rest ≠ start := by
  intro equal
  obtain ⟨between, middle_eq, -⟩ := continues.exists_rest
  have length_eq := congrArg (fun text => text.toList.length) equal
  simp [middle_eq] at length_eq

theorem ne_of_step {start part name : String} (continues : Extends (start ++ "$" ++ part) name) :
    name ≠ start := by
  rcases continues with rfl | ⟨rest, rfl⟩
  · exact (refl start).ne_start part
  · exact (step start part).ne_start rest

/-- Right after a common path, a name goes on with one solid part only. -/
theorem solid_unique {path first second name : String} (one : Extends (path ++ first) name)
    (other : Extends (path ++ second) name) (solid : Solid first) (also : Solid second) :
    first = second := by
  obtain ⟨rest, name_eq, rest_head⟩ := one.exists_rest
  obtain ⟨others, name_eq', others_head⟩ := other.exists_rest
  rw [name_eq, String.toList_append, String.toList_append, List.append_assoc, List.append_assoc]
    at name_eq'
  have parts := List.append_cancel_left name_eq'
  rw [← String.toList_inj]
  rcases List.append_eq_append_iff.mp parts with
    ⟨between, second_eq, rest_eq⟩ | ⟨between, first_eq, others_eq⟩
  · cases between with
    | nil => simpa using second_eq.symm
    | cons char between =>
        have dollar : char = '$' := rest_head char (by simp [rest_eq])
        exact absurd (by simp [second_eq, dollar]) also
  · cases between with
    | nil => simpa using first_eq
    | cons char between =>
        have dollar : char = '$' := others_head char (by simp [others_eq])
        exact absurd (by simp [first_eq, dollar]) solid

end Extends

/-- A name is taken apart at its last `$`. -/
theorem append_dollar_inj {start other last part : String} (solid : Solid last) (also : Solid part)
    (equal : start ++ "$" ++ last = other ++ "$" ++ part) : start = other ∧ last = part := by
  have lists := congrArg String.toList equal
  simp only [String.toList_append, List.append_assoc] at lists
  rw [← String.toList_inj, ← String.toList_inj]
  rcases List.append_eq_append_iff.mp lists with
    ⟨between, other_eq, last_eq⟩ | ⟨between, start_eq, part_eq⟩
  · cases between with
    | nil => simpa [other_eq] using last_eq
    | cons char between =>
        have tail_eq : last.toList = between ++ '$' :: part.toList := by
          simpa using (List.cons.inj last_eq).2
        exact absurd (by simp [tail_eq]) solid
  · cases between with
    | nil => simpa [start_eq, eq_comm] using part_eq
    | cons char between =>
        have tail_eq : part.toList = between ++ '$' :: last.toList := by
          simpa using (List.cons.inj part_eq).2
        exact absurd (by simp [tail_eq]) also

/-! ## Numerals -/

theorem isDigit_of_mem_toString {number : Nat} {char : Char}
    (member : char ∈ (toString number).toList) : char.isDigit = true := by
  rw [Nat.toString_eq_repr, Nat.toList_repr] at member
  exact Nat.isDigit_of_mem_toDigits (by omega) (by omega) member

theorem solid_toString (number : Nat) : Solid (toString number) := by
  intro member
  have digit : ('$' : Char).isDigit = true := isDigit_of_mem_toString member
  simp at digit

theorem toString_inj {number other : Nat} (equal : toString number = toString other) :
    number = other := by
  have digits := congrArg String.toList equal
  rw [Nat.toString_eq_repr, Nat.toString_eq_repr, Nat.toList_repr, Nat.toList_repr] at digits
  rw [← @Nat.ofDigitChars_ten_toDigits number, digits, Nat.ofDigitChars_ten_toDigits]

/-- A text without `$` that is not the numeral of a positive number. -/
def Plain (text : String) : Prop := Solid text ∧ ∀ number, 0 < number → text ≠ toString number

theorem plain_of_letter {text : String} {char : Char} (solid : Solid text)
    (member : char ∈ text.toList) (letter : char.isDigit = false) : Plain text := by
  refine ⟨solid, ?_⟩
  rintro number - rfl
  rw [isDigit_of_mem_toString member] at letter
  contradiction

end BinaryName
