import Sano.Base.LinkedMap
import Sano.Base.Run

namespace Sano.Runtime.Observer

section Model

structure JSFunction (κ : Type) where
  handle : Nat
  callback : κ
deriving DecidableEq

inductive Route where
  | setPropertyStr
  | setProperty
  | set
  | push
  | argument
deriving DecidableEq

inductive Event (κ : Type) where
  | create (function : JSFunction κ)
  | install (function : JSFunction κ) (route : Route) (accepted : Bool)
  | free (function : JSFunction κ)
  | call (function : JSFunction κ)
deriving DecidableEq

variable {κ : Type}

structure State (κ : Type) where
  listeners : LinkedMap String κ := ∅
  invoked : List (Option κ) := []

def step (symbol : κ → String) (s : State κ) : Event κ → State κ
  | .create _ => s
  | .install function .setPropertyStr true =>
    { s with listeners := s.listeners.insert (symbol function.callback) function.callback }
  | .install _ _ _ => s
  | .free function => { s with listeners := s.listeners.remove (symbol function.callback) }
  | .call function => { s with invoked := s.invoked ++ [s.listeners.get? (symbol function.callback)] }

end Model

section History

variable {κ : Type} (symbol : κ → String)

def effect (key : String) : Event κ → Option (Option κ)
  | .install function .setPropertyStr true =>
    if symbol function.callback = key then some (some function.callback) else none
  | .free function => if symbol function.callback = key then some none else none
  | _ => none

theorem step_get (key : String) (s : State κ) (event : Event κ) :
    (step symbol s event).listeners.get? key = (effect symbol key event).getD (s.listeners.get? key) := by
  cases event with
  | create function => rfl
  | call function => rfl
  | free function =>
    simp only [step, effect, LinkedMap.get?_remove]
    split <;> rfl
  | install function route accepted =>
    cases route with
    | setPropertyStr =>
      cases accepted with
      | false => rfl
      | true =>
        simp only [step, effect, LinkedMap.get?_insert]
        split <;> rfl
    | _ => cases accepted <;> rfl

def Concerns (callback : κ) : Event κ → Prop
  | .install function .setPropertyStr true => symbol function.callback = symbol callback
  | .free function => symbol function.callback = symbol callback
  | _ => False

theorem effect_none_iff (callback : κ) (event : Event κ) :
    effect symbol (symbol callback) event = none ↔ ¬ Concerns symbol callback event := by
  cases event with
  | create function => simp [effect, Concerns]
  | call function => simp [effect, Concerns]
  | free function => simp [effect, Concerns]
  | install function route accepted => cases route <;> cases accepted <;> simp [effect, Concerns]

theorem effect_some_iff (callback : κ) (event : Event κ) :
    effect symbol (symbol callback) event = some (some callback) ↔
      ∃ function, event = .install function .setPropertyStr true ∧ function.callback = callback := by
  cases event with
  | create function => simp [effect]
  | call function => simp [effect]
  | free function => simp [effect]
  | install function route accepted =>
    cases route <;> cases accepted <;> simp [effect]
    rintro rfl
    rfl

/-- A call by JS invokes the callback of the function and no other exactly when the
    last event that concerns its symbol is an installation with `setPropertyStr` of a
    function for this callback. -/
theorem call_invokes_own_iff (history : List (Event κ)) (function : JSFunction κ) :
    (Run.final (step symbol) {} (history ++ [.call function])).invoked =
        (Run.final (step symbol) {} history).invoked ++ [some function.callback] ↔
      ∃ before installed after, history = before ++ .install installed .setPropertyStr true :: after ∧
        installed.callback = function.callback ∧ ∀ event ∈ after, ¬ Concerns symbol function.callback event := by
  have reads := Run.read_final_iff (fun s : State κ => s.listeners.get? (symbol function.callback))
    (effect symbol (symbol function.callback)) (step_get symbol _) (s := {}) rfl history function.callback
  have called : (Run.final (step symbol) {} (history ++ [.call function])).invoked =
      (Run.final (step symbol) {} history).invoked ++
        [(Run.final (step symbol) {} history).listeners.get? (symbol function.callback)] := by
    rw [Run.final_snoc]
    rfl
  rw [called, List.append_cancel_left_eq, List.cons.injEq, and_iff_left rfl, reads]
  simp only [Run.Stands, effect_some_iff, ne_eq, effect_none_iff, not_not]
  constructor
  · rintro ⟨before, _, after, split, ⟨installed, rfl, same⟩, still⟩
    exact ⟨before, installed, after, split, same, still⟩
  · rintro ⟨before, installed, after, split, same, still⟩
    exact ⟨before, _, after, split, ⟨installed, rfl, same⟩, still⟩

/-- Two functions for one callback: once the second is freed, a call of the first
    invokes nothing. -/
theorem freeing_other_disables :
    let history : List (Event Nat) := [.create ⟨0, 7⟩, .install ⟨0, 7⟩ .setPropertyStr true, .create ⟨1, 7⟩,
      .install ⟨1, 7⟩ .setPropertyStr true, .free ⟨1, 7⟩]
    .free ⟨0, 7⟩ ∉ history ∧
      (Run.final (step fun callback => toString callback) {} (history ++ [.call ⟨0, 7⟩])).invoked = [none] := by
  decide +kernel

end History

end Sano.Runtime.Observer
