import BinaryName.Fault
import BinaryName.Kind

/-!
# Declarations

A declaration has a head and nested declarations.  An entry that is no declaration at all is kept
as a foreign value, so that laying out a tree can refuse it where it stands.
-/

namespace BinaryName

/-- What a declaration says about itself. -/
structure Head where
  /-- What is declared. -/
  kind : Kind
  /-- The declared name. -/
  name : Option String
  /-- The label that marks the declaration. -/
  label : Option String
  /-- The name that the declaration is expected to have. -/
  expected : Option String
  deriving DecidableEq, Repr

/-- The head of a declaration without a label, of which nothing is expected. -/
def Head.unmarked (kind : Kind) (name : Option String) : Head :=
  { kind, name, label := none, expected := none }

@[simp] theorem Head.kind_unmarked (kind : Kind) (name : Option String) :
    (unmarked kind name).kind = kind := rfl

@[simp] theorem Head.name_unmarked (kind : Kind) (name : Option String) :
    (unmarked kind name).name = name := rfl

/-- A nest of declarations. -/
inductive Decl where
  /-- A declaration with the declarations in it, in source order. -/
  | declare (head : Head) (children : List Decl)
  /-- A value that is no declaration. -/
  | foreign (sort : ValueSort)
  deriving Repr

namespace Decl

mutual

/-- The number of entries of a nest. -/
def count : Decl → Nat
  | .declare _ children => countAll children + 1
  | .foreign _ => 1

/-- The number of entries of several nests. -/
def countAll : List Decl → Nat
  | [] => 0
  | decl :: rest => decl.count + countAll rest

end

theorem countAll_append (before after : List Decl) :
    countAll (before ++ after) = countAll before + countAll after := by
  induction before with
  | nil => simp [countAll]
  | cons decl rest ih => rw [List.cons_append, countAll, countAll, ih, Nat.add_assoc]

end Decl

end BinaryName
