import BinaryName.Numbering

/-!
# Inquiries

An inquiry answers, fails, or asks for the numbering of a scope and goes on.  It does not say where
numberings come from: the same inquiry can be answered by walking the tree each time or from a
cache.
-/

namespace BinaryName

/-- A computation that may ask for numberings. -/
inductive Inquiry (α : Type) where
  /-- The inquiry ends with a value. -/
  | answer (value : α)
  /-- The inquiry ends with a fault. -/
  | fail (fault : Fault)
  /-- The inquiry needs the numbering of the scope of a root. -/
  | ask (root : Handle) (next : Numbering → Inquiry α)

namespace Inquiry

variable {α β γ : Type}

/-- One inquiry after the other. -/
def andThen (inquiry : Inquiry α) (next : α → Inquiry β) : Inquiry β :=
  match inquiry with
  | answer value => next value
  | fail fault => fail fault
  | ask root following => ask root fun numbering => (following numbering).andThen next

/-- Ask for the numbering of the scope of a root. -/
def numbering (root : Handle) : Inquiry Numbering := ask root answer

/-- The inquiry that asks for nothing. -/
def ofExcept : Except Fault α → Inquiry α
  | .ok value => answer value
  | .error fault => fail fault

instance : Monad Inquiry where
  pure := answer
  bind := andThen

instance : MonadLift (Except Fault) Inquiry where
  monadLift := ofExcept

theorem andThen_answer (inquiry : Inquiry α) : inquiry.andThen answer = inquiry := by
  induction inquiry with
  | answer value => rfl
  | fail fault => rfl
  | ask root next ih => exact congrArg (ask root) (funext ih)

theorem andThen_assoc (inquiry : Inquiry α) (next : α → Inquiry β) (last : β → Inquiry γ) :
    (inquiry.andThen next).andThen last =
      inquiry.andThen fun value => (next value).andThen last := by
  induction inquiry with
  | answer value => rfl
  | fail fault => rfl
  | ask root following ih => exact congrArg (ask root) (funext ih)

instance : LawfulMonad Inquiry :=
  LawfulMonad.mk' Inquiry andThen_answer (fun _ _ => rfl) andThen_assoc

/-- The outcome when every numbering is made by a walk of its own. -/
def eval (tree : ScopeTree) : Inquiry α → Except Fault α
  | answer value => .ok value
  | fail fault => .error fault
  | ask root next =>
      match tree.numbering root with
      | .ok numbering => (next numbering).eval tree
      | .error fault => .error fault

end Inquiry

end BinaryName
