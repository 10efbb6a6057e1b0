import Sano.Framework.Channel

namespace Sano.Framework.Bridge

section Model

variable {κ : Type}

structure Listener (κ : Type) where
  registration : Nat
  handle : κ
  once : Option String
deriving DecidableEq

/-- Handlers run between their dispatch and a `finish`, with an exception or without.
    What they do there are events like any other. -/
inductive Event (κ : Type) where
  | on (method : String) (handle : κ)
  | off (method : String)
  | once (method : String) (handle : κ)
  | dispose (name : String)
  | dispatch (method : String)
  | finish (thrown : Bool)
deriving DecidableEq

structure State (κ : Type) where
  listeners : LinkedMap String (Listener κ) := ∅
  registered : Nat := 0
  ran : List (Option (Listener κ)) := []
  stack : List (Listener κ) := []

def reserved : String := "__initialize__"

def call (s : State κ) (listener : Listener κ) : State κ :=
  { s with
    listeners :=
      match listener.once with
      | some method => s.listeners.remove method
      | none => s.listeners
    ran := s.ran ++ [some listener]
    stack := listener :: s.stack }

def emit (s : State κ) (method : String) : State κ :=
  match s.listeners.get? method with
  | some listener => call s listener
  | none => { s with ran := s.ran ++ [none] }

def step (s : State κ) : Event κ → State κ
  | .on method handle =>
    { s with listeners := s.listeners.insert method ⟨s.registered, handle, none⟩, registered := s.registered + 1 }
  | .off method => { s with listeners := s.listeners.remove method }
  | .once method handle =>
    { s with listeners := s.listeners.insert method ⟨s.registered, handle, some method⟩, registered := s.registered + 1 }
  | .dispose name => { s with listeners := dispose name s.listeners }
  | .dispatch method => if method = reserved then s else emit s method
  | .finish _ => { s with stack := s.stack.tail }

end Model

section History

variable {κ : Type}

def isRegistration : Event κ → Bool
  | .on _ _ => true
  | .once _ _ => true
  | _ => false

def Registers (number : Nat) (method : String) (listener : Listener κ) : Event κ → Prop
  | .on other handle => other = method ∧ listener = ⟨number, handle, none⟩
  | .once other handle => other = method ∧ listener = ⟨number, handle, some method⟩
  | _ => False

def Ends (method : String) (listener : Listener κ) : Event κ → Prop
  | .on other _ => other = method
  | .once other _ => other = method
  | .off other => other = method
  | .dispose name => beginsWith method (channelName name) = true
  | .dispatch other => other = method ∧ method ≠ reserved ∧ listener.once ≠ none
  | .finish _ => False

def InForce (history : List (Event κ)) (method : String) (listener : Listener κ) : Prop :=
  Run.Stands (fun before event => Registers (before.countP isRegistration) method listener event)
    (Ends method listener) history

theorem run_registered (history : List (Event κ)) :
    (Run.final step {} history).registered = history.countP isRegistration := by
  induction history using List.reverseRecOn with
  | nil => rfl
  | append_singleton history event ih =>
    rw [Run.final_snoc, List.countP_append, ← ih]
    cases event with
    | dispatch method =>
      simp only [step, emit]
      split
      · rfl
      · split <;> rfl
    | _ => rfl

theorem insert_get_iff (s : State κ) (method key : String) (handle : κ) (wrapped : Option String) (listener : Listener κ) :
    (s.listeners.insert method ⟨s.registered, handle, wrapped⟩).get? key = some listener ↔
      (method = key ∧ listener = ⟨s.registered, handle, wrapped⟩) ∨
        ¬ method = key ∧ s.listeners.get? key = some listener := by
  rw [LinkedMap.get?_insert]
  by_cases same : method = key
  · simp [same, eq_comm]
  · simp [same]

variable [DecidableEq κ]

structure Sound (s : State κ) : Prop where
  own : ∀ key listener, s.listeners.get? key = some listener → ∀ method, listener.once = some method → method = key
  numbered : ∀ key listener, s.listeners.get? key = some listener → listener.registration < s.registered
  distinct : ∀ key key' listener listener', s.listeners.get? key = some listener →
    s.listeners.get? key' = some listener' → listener.registration = listener'.registration → key = key'
  unused : ∀ key listener, s.listeners.get? key = some listener → listener.once ≠ none → some listener ∉ s.ran
  past : ∀ listener, some listener ∈ s.ran → listener.registration < s.registered
  once : ∀ listener, listener.once ≠ none → s.ran.count (some listener) ≤ 1

theorem Sound.insert {s : State κ} (sound : Sound s) (method : String) (handle : κ) {wrapped : Option String}
    (captured : ∀ other, wrapped = some other → other = method) :
    Sound { s with
      listeners := s.listeners.insert method ⟨s.registered, handle, wrapped⟩, registered := s.registered + 1 } where
  own := by
    intro key listener found other once
    rw [LinkedMap.get?_insert] at found
    split at found
    next same =>
      cases found
      exact (captured other once).trans same
    next => exact sound.own key listener found other once
  numbered := by
    intro key listener found
    rw [LinkedMap.get?_insert] at found
    split at found
    next =>
      cases found
      exact Nat.lt_succ_self _
    next => exact Nat.lt_succ_of_lt (sound.numbered key listener found)
  distinct := by
    intro key key' listener listener' found found' same
    rw [LinkedMap.get?_insert] at found found'
    split at found
    next here =>
      cases found
      split at found'
      next here' => exact here.symm.trans here'
      next =>
        have := sound.numbered key' listener' found'
        simp only at same
        omega
    next =>
      split at found'
      next =>
        cases found'
        have := sound.numbered key listener found
        simp only at same
        omega
      next => exact sound.distinct key key' listener listener' found found' same
  unused := by
    intro key listener found once
    rw [LinkedMap.get?_insert] at found
    split at found
    next =>
      cases found
      intro member
      have := sound.past _ member
      simp only at this
      omega
    next => exact sound.unused key listener found once
  past listener member := Nat.lt_succ_of_lt (sound.past listener member)
  once := sound.once

theorem Sound.shrink {s : State κ} (sound : Sound s) {listeners : LinkedMap String (Listener κ)}
    (part : ∀ key listener, listeners.get? key = some listener → s.listeners.get? key = some listener) :
    Sound { s with listeners } where
  own key listener found := sound.own key listener (part key listener found)
  numbered key listener found := sound.numbered key listener (part key listener found)
  distinct key key' listener listener' found found' :=
    sound.distinct key key' listener listener' (part _ _ found) (part _ _ found')
  unused key listener found := sound.unused key listener (part key listener found)
  past := sound.past
  once := sound.once

theorem Sound.emit {s : State κ} (sound : Sound s) (method : String) : Sound (emit s method) := by
  unfold Bridge.emit
  cases found : s.listeners.get? method with
  | none =>
    refine ⟨sound.own, sound.numbered, sound.distinct, ?_, ?_, ?_⟩
    · intro key listener there once member
      exact sound.unused key listener there once (by simpa using member)
    · intro listener member
      exact sound.past listener (by simpa using member)
    · intro listener once
      simpa using sound.once listener once
  | some running =>
    have part : ∀ key listener, (call s running).listeners.get? key = some listener →
        s.listeners.get? key = some listener ∧ (running.once ≠ none → key ≠ method) := by
      intro key listener there
      cases once : running.once with
      | none =>
        simp only [call, once] at there
        exact ⟨there, fun wrong => absurd rfl wrong⟩
      | some own =>
        have same := sound.own method running found own once
        subst same
        simp only [call, once, LinkedMap.get?_remove] at there
        split at there
        next => cases there
        next other => exact ⟨there, fun _ wrong => other wrong.symm⟩
    refine ⟨?_, ?_, ?_, ?_, ?_, ?_⟩
    · exact fun key listener there => sound.own key listener (part key listener there).1
    · exact fun key listener there => sound.numbered key listener (part key listener there).1
    · exact fun key key' listener listener' there there' =>
        sound.distinct key key' listener listener' (part _ _ there).1 (part _ _ there').1
    · intro key listener there once member
      rcases part key listener there with ⟨before, elsewhere⟩
      rcases List.mem_append.mp member with old | new
      · exact sound.unused key listener before once old
      · have same : listener = running := by simpa using new
        subst same
        exact elsewhere once (sound.distinct key method listener listener before found rfl)
    · intro listener member
      rcases List.mem_append.mp member with old | new
      · exact sound.past listener old
      · have same : listener = running := by simpa using new
        rw [same]
        exact sound.numbered method running found
    · intro listener once
      simp only [call, List.count_append, List.count_singleton]
      have before := sound.once listener once
      by_cases same : listener = running
      · subst same
        have none := List.count_eq_zero.mpr (sound.unused method listener found once)
        simp [none]
      · simp only [beq_iff_eq, Option.some.injEq, Ne.symm same, if_false]
        omega

theorem Sound.step {s : State κ} (sound : Sound s) (event : Event κ) : Sound (step s event) := by
  cases event with
  | on method handle => exact sound.insert method handle fun _ none => by cases none
  | once method handle => exact sound.insert method handle fun _ same => (Option.some.inj same).symm
  | off method =>
    apply sound.shrink
    intro key listener found
    rw [LinkedMap.get?_remove] at found
    split at found
    · cases found
    · exact found
  | dispose name =>
    apply sound.shrink
    intro key listener found
    rw [dispose_get] at found
    split at found
    · cases found
    · exact found
  | dispatch method =>
    simp only [Bridge.step]
    split
    · exact sound
    · exact sound.emit method
  | finish thrown => exact ⟨sound.own, sound.numbered, sound.distinct, sound.unused, sound.past, sound.once⟩

theorem run_sound (history : List (Event κ)) : Sound (Run.final step {} history) := by
  have initial : Sound ({} : State κ) := by
    refine ⟨?_, ?_, ?_, ?_, ?_, ?_⟩ <;> intros <;> simp_all
  exact Run.final_always step Sound (fun _ event sound => sound.step event) history {} initial

theorem emit_get_iff {s : State κ} (sound : Sound s) (method key : String) (listener : Listener κ) :
    (emit s method).listeners.get? key = some listener ↔
      ¬ (method = key ∧ listener.once ≠ none) ∧ s.listeners.get? key = some listener := by
  unfold emit
  cases found : s.listeners.get? method with
  | none =>
    constructor
    · intro there
      refine ⟨fun same => ?_, there⟩
      rw [← same.1, found] at there
      cases there
    · exact fun kept => kept.2
  | some running =>
    cases once : running.once with
    | none =>
      simp only [call, once]
      constructor
      · intro there
        refine ⟨fun same => ?_, there⟩
        rw [← same.1, found] at there
        cases there
        exact same.2 once
      · exact fun kept => kept.2
    | some own =>
      have same := sound.own method running found own once
      subst same
      simp only [call, once, LinkedMap.get?_remove]
      by_cases here : own = key
      · subst here
        rw [found]
        simp only [if_true, reduceCtorEq, true_and, Option.some.injEq, false_iff, not_and]
        intro unused same
        subst same
        exact unused (by simp [once])
      · simp [here]

/-- One event and one key: the listener stored after it has just been registered,
    or was there and is not ended. -/
theorem step_get_iff {s : State κ} (sound : Sound s) (event : Event κ) (method : String) (listener : Listener κ) :
    (step s event).listeners.get? method = some listener ↔
      Registers s.registered method listener event ∨
        ¬ Ends method listener event ∧ s.listeners.get? method = some listener := by
  cases event with
  | on other handle => exact insert_get_iff s other method handle none listener
  | once other handle =>
    rw [Bridge.step, insert_get_iff]
    constructor
    · rintro (⟨rfl, same⟩ | kept)
      · exact .inl ⟨rfl, same⟩
      · exact .inr kept
    · rintro (⟨rfl, same⟩ | kept)
      · exact .inl ⟨rfl, same⟩
      · exact .inr kept
  | off other =>
    simp only [Bridge.step, Registers, Ends, false_or, LinkedMap.get?_remove]
    by_cases same : other = method <;> simp [same]
  | dispose name =>
    simp only [Bridge.step, Registers, Ends, false_or, dispose_get]
    by_cases begins : beginsWith method (channelName name) = true <;> simp [begins]
  | dispatch other =>
    simp only [Bridge.step, Registers, Ends, false_or]
    by_cases special : other = reserved
    · subst special
      simp only [if_true]
      constructor
      · exact fun found => ⟨fun ended => ended.2.1 ended.1.symm, found⟩
      · exact fun kept => kept.2
    · rw [if_neg special, emit_get_iff sound]
      apply and_congr_left
      intro _
      constructor
      · exact fun kept ended => kept ⟨ended.1, ended.2.2⟩
      · exact fun kept ended => kept ⟨ended.1, fun same => special (ended.1.trans same), ended.2⟩
  | finish thrown => simp [Bridge.step, Registers, Ends]

theorem run_get_iff (history : List (Event κ)) (method : String) (listener : Listener κ) :
    (Run.final step {} history).listeners.get? method = some listener ↔ InForce history method listener := by
  induction history using List.reverseRecOn with
  | nil =>
    constructor
    · intro found
      cases found
    · exact fun stands => absurd stands (Run.not_stands_nil _ _)
  | append_singleton history event ih =>
    rw [Run.final_snoc, InForce, Run.stands_snoc_iff, step_get_iff (run_sound history), run_registered, ih]
    rfl

/-- In every history a dispatch runs the listener in force, and nothing when there is
    none, and a registration with `once` runs at most once. -/
theorem dispatch_follows_history (history : List (Event κ)) :
    (∀ method, method ≠ reserved → ∀ result,
      (Run.final step {} (history ++ [.dispatch method])).ran = (Run.final step {} history).ran ++ [result] ↔
        ∀ listener, result = some listener ↔ InForce history method listener) ∧
    ∀ listener, listener.once ≠ none → (Run.final step {} history).ran.count (some listener) ≤ 1 := by
  refine ⟨fun method ordinary result => ?_, fun listener => (run_sound history).once listener⟩
  have runs : (Run.final step {} (history ++ [.dispatch method])).ran =
      (Run.final step {} history).ran ++ [(Run.final step {} history).listeners.get? method] := by
    rw [Run.final_snoc, step, if_neg ordinary, emit]
    cases (Run.final step {} history).listeners.get? method <;> rfl
  rw [runs, List.append_cancel_left_eq, List.cons.injEq, and_iff_left rfl]
  simp only [← run_get_iff]
  constructor
  · rintro rfl listener
    rfl
  · intro same
    cases result with
    | some listener => exact (same listener).mp rfl
    | none =>
      cases found : (Run.final step {} history).listeners.get? method with
      | none => rfl
      | some listener => cases (same listener).mpr found

end History

end Sano.Framework.Bridge
