import Mathlib.Data.List.Basic

/-- Runs `body` and asks `normal` of a normal end and `thrown` of an exception.
    The state reached before an exception is kept. -/
def Ends {ε σ α : Type} (body : EStateM ε σ α) (s : σ) (normal : α → σ → Prop)
    (thrown : ε → σ → Prop) : Prop :=
  match body s with
  | .ok value t => normal value t
  | .error error t => thrown error t

def finalState {ε σ α : Type} : EStateM.Result ε σ α → σ
  | .ok _ t => t
  | .error _ t => t

def returns {ε σ α : Type} (test : α → σ → Bool) : EStateM.Result ε σ α → Bool
  | .ok value t => test value t
  | .error _ _ => false

theorem returns_ok {ε σ α : Type} {test : α → σ → Bool} {result : EStateM.Result ε σ α}
    (passed : returns test result = true) : ∃ value t, result = .ok value t ∧ test value t = true := by
  cases result with
  | ok value t => exact ⟨value, t, rfl, passed⟩
  | error fault t => cases passed

namespace Ends

variable {ε σ α β : Type}

theorem pure {value : α} {s : σ} {normal : α → σ → Prop} {thrown : ε → σ → Prop}
    (holds : normal value s) : Ends (Pure.pure value) s normal thrown := holds

theorem throw {error : ε} {s : σ} {normal : α → σ → Prop} {thrown : ε → σ → Prop}
    (holds : thrown error s) : Ends (MonadExcept.throw error) s normal thrown := holds

theorem bind {body : EStateM ε σ α} {next : α → EStateM ε σ β} {s : σ}
    {normal : β → σ → Prop} {thrown : ε → σ → Prop}
    (first : Ends body s (fun value t => Ends (next value) t normal thrown) thrown) :
    Ends (body >>= next) s normal thrown := by
  unfold Ends at *
  change match EStateM.bind body next s with | .ok value t => _ | .error error t => _
  unfold EStateM.bind
  cases result : body s <;> simp only [result] at first ⊢ <;> exact first

theorem mono {body : EStateM ε σ α} {s : σ} {normal normal' : α → σ → Prop}
    {thrown thrown' : ε → σ → Prop} (ends : Ends body s normal thrown)
    (onNormal : ∀ value t, normal value t → normal' value t)
    (onThrown : ∀ error t, thrown error t → thrown' error t) : Ends body s normal' thrown' := by
  unfold Ends at *
  cases result : body s <;> simp only [result] at ends ⊢
  · exact onNormal _ _ ends
  · exact onThrown _ _ ends

theorem both {body : EStateM ε σ α} {s : σ} {normal normal' : α → σ → Prop} {thrown thrown' : ε → σ → Prop}
    (left : Ends body s normal thrown) (right : Ends body s normal' thrown') :
    Ends body s (fun value t => normal value t ∧ normal' value t) (fun error t => thrown error t ∧ thrown' error t) := by
  unfold Ends at *
  cases result : body s <;> simp only [result] at left right ⊢ <;> exact ⟨left, right⟩

theorem ok {body : EStateM ε σ α} {s t : σ} {value : α} {normal : α → σ → Prop}
    {thrown : ε → σ → Prop} (ends : Ends body s normal thrown) (result : body s = .ok value t) :
    normal value t := by
  simpa [Ends, result] using ends

theorem error {body : EStateM ε σ α} {s t : σ} {fault : ε} {normal : α → σ → Prop}
    {thrown : ε → σ → Prop} (ends : Ends body s normal thrown) (result : body s = .error fault t) :
    thrown fault t := by
  simpa [Ends, result] using ends

theorem final {body : EStateM ε σ α} {s : σ} {holds : σ → Prop}
    (ends : Ends body s (fun _ t => holds t) fun _ t => holds t) : holds (finalState (body s)) := by
  unfold Ends at ends
  cases result : body s <;> simp only [result] at ends <;> exact ends

theorem of_final {body : EStateM ε σ α} {s : σ} {holds : σ → Prop} (after : holds (finalState (body s))) :
    Ends body s (fun _ t => holds t) fun _ t => holds t := by
  unfold Ends
  cases result : body s <;> simp only [result] at after ⊢ <;> exact after

end Ends

def Advances {ε σ α : Type} (related : σ → σ → Prop) (body : EStateM ε σ α) : Prop :=
  ∀ s, Ends body s (fun _ t => related s t) fun _ t => related s t

namespace Advances

variable {ε σ α β : Type} {related : σ → σ → Prop}

theorem pure [Std.Refl related] (value : α) : Advances related (Pure.pure value : EStateM ε σ α) :=
  fun s => refl_of related s

theorem throw [Std.Refl related] (error : ε) : Advances related (MonadExcept.throw error : EStateM ε σ α) :=
  fun s => refl_of related s

theorem bind [IsTrans σ related] {body : EStateM ε σ α} {next : α → EStateM ε σ β} (first : Advances related body)
    (second : ∀ value, Advances related (next value)) : Advances related (body >>= next) := by
  intro s
  apply Ends.bind
  apply (first s).mono
  · intro value t before
    exact (second value t).mono (fun _ _ after => trans_of related before after)
      fun _ _ after => trans_of related before after
  · exact fun _ _ before => before

variable [Std.Refl related] [IsTrans σ related]

theorem mapM {body : α → EStateM ε σ β} {items : List α} (each : ∀ item ∈ items, Advances related (body item)) :
    Advances related (items.mapM body) := by
  induction items with
  | nil => exact pure []
  | cons item rest ih =>
    obtain ⟨first, later⟩ := List.forall_mem_cons.mp each
    rw [List.mapM_cons]
    exact first.bind fun value => (ih later).bind fun values => pure (value :: values)

theorem forM {body : α → EStateM ε σ PUnit} {items : List α} (each : ∀ item ∈ items, Advances related (body item)) :
    Advances related (items.forM body) := by
  induction items with
  | nil => exact pure PUnit.unit
  | cons item rest ih =>
    obtain ⟨first, later⟩ := List.forall_mem_cons.mp each
    exact first.bind fun _ => ih later

end Advances
