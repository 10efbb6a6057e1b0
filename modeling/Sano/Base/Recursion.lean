import Mathlib.Order.Basic

/-- Recursion through an open functional, with a measure that bounds its depth.
    The result computes by structural recursion on the bound. -/
def Recursion.iterate {α β : Type} (step : (α → β) → α → β) (bottom : β) : Nat → α → β
  | 0 => fun _ => bottom
  | n + 1 => step (iterate step bottom n)

namespace Recursion

variable {α β : Type}

def fix (step : (α → β) → α → β) (bottom : β) (measure : α → Nat) (a : α) : β :=
  iterate step bottom (measure a + 1) a

def Local (step : (α → β) → α → β) (measure : α → Nat) : Prop :=
  ∀ (f g : α → β) (a : α), (∀ b, measure b < measure a → f b = g b) → step f a = step g a

theorem iterate_agree {step : (α → β) → α → β} {measure : α → Nat} (steady : Local step measure)
    (bottom : β) (n m : Nat) (a : α) (left : measure a < n) (right : measure a < m) :
    iterate step bottom n a = iterate step bottom m a := by
  induction n generalizing m a with
  | zero => omega
  | succ n ih =>
    cases m with
    | zero => omega
    | succ m =>
      apply steady
      intro b below
      exact ih m b (by omega) (by omega)

/-- The bound never shows: the recursion satisfies its own equation. -/
theorem fix_eq {step : (α → β) → α → β} {measure : α → Nat} (steady : Local step measure)
    (bottom : β) (a : α) :
    fix step bottom measure a = step (fix step bottom measure) a := by
  apply steady
  intro b below
  exact iterate_agree steady bottom _ _ b below (Nat.lt_succ_self _)

end Recursion
