import Mathlib.Data.List.Basic

def Agree {ε σ α : Type} (states : σ → σ → Prop) (values : α → α → Prop) :
    EStateM.Result ε σ α → EStateM.Result ε σ α → Prop
  | .ok value t, .ok value' t' => values value value' ∧ states t t'
  | .error error t, .error error' t' => error = error' ∧ states t t'
  | _, _ => False

def Matched {ε σ α : Type} (states : σ → σ → Prop) (values : α → α → Prop) (body body' : EStateM ε σ α) : Prop :=
  ∀ s s', states s s' → Agree states values (body s) (body' s')

namespace Matched

variable {ε σ α β : Type} {states : σ → σ → Prop} {values : α → α → Prop} {values' : β → β → Prop}

theorem pure {value value' : α} (related : values value value') :
    Matched states values (Pure.pure value : EStateM ε σ α) (Pure.pure value') :=
  fun _ _ same => ⟨related, same⟩

theorem throw (error : ε) :
    Matched states values (MonadExcept.throw error : EStateM ε σ α) (MonadExcept.throw error) :=
  fun _ _ same => ⟨rfl, same⟩

theorem bind {body body' : EStateM ε σ α} {next next' : α → EStateM ε σ β}
    (first : Matched states values body body')
    (later : ∀ value value', values value value' → Matched states values' (next value) (next' value')) :
    Matched states values' (body >>= next) (body' >>= next') := by
  intro s s' same
  have outcome := first s s' same
  simp only [Bind.bind, EStateM.bind]
  cases left : body s <;> cases right : body' s' <;> simp only [left, right] at outcome ⊢
  · exact later _ _ outcome.1 _ _ outcome.2
  · exact outcome.elim
  · exact outcome.elim
  · exact outcome

theorem mapM {γ : Type} {items : List γ} {f g : γ → EStateM ε σ α}
    (each : ∀ item ∈ items, Matched states Eq (f item) (g item)) :
    Matched states Eq (items.mapM f) (items.mapM g) := by
  induction items with
  | nil => exact .pure rfl
  | cons head rest ih =>
    rw [List.mapM_cons, List.mapM_cons]
    refine .bind (each head (by simp)) fun first _ same => ?_
    subst same
    refine .bind (ih fun item member => each item (by simp [member])) fun values _ same => ?_
    subst same
    exact .pure rfl

theorem forM {γ : Type} {items : List γ} {f g : γ → EStateM ε σ PUnit}
    (each : ∀ item ∈ items, Matched states Eq (f item) (g item)) :
    Matched states Eq (items.forM f) (items.forM g) := by
  induction items with
  | nil => exact .pure rfl
  | cons head rest ih =>
    exact .bind (each head (by simp)) fun _ _ _ => ih fun item member => each item (by simp [member])

end Matched
