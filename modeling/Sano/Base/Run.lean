import Mathlib.Data.List.Induction

def Run.states {σ ε : Type} (step : σ → ε → σ) : σ → List ε → List σ
  | s, [] => [s]
  | s, event :: rest => s :: states step (step s event) rest

namespace Run

variable {σ ε : Type} {step : σ → ε → σ}

def final (step : σ → ε → σ) (s : σ) (events : List ε) : σ := events.foldl step s

def Along (step : σ → ε → σ) (meets : σ → ε → Prop) : σ → List ε → Prop
  | _, [] => True
  | s, event :: rest => meets s event ∧ Along step meets (step s event) rest

instance decidableAlong (step : σ → ε → σ) (meets : σ → ε → Prop) [∀ s event, Decidable (meets s event)] :
    (s : σ) → (events : List ε) → Decidable (Along step meets s events)
  | _, [] => isTrue trivial
  | s, event :: rest =>
    have := decidableAlong step meets (step s event) rest
    inferInstanceAs (Decidable (_ ∧ _))

theorem first_mem_states (s : σ) (events : List ε) : s ∈ states step s events := by
  cases events <;> simp [states]

theorem final_mem_states (s : σ) (events : List ε) : final step s events ∈ states step s events := by
  induction events generalizing s with
  | nil => simp [final, states]
  | cons event rest ih => exact List.mem_cons_of_mem _ (ih (step s event))

theorem invariant (step : σ → ε → σ) (meets : σ → ε → Prop) (holds : σ → Prop)
    (preserved : ∀ s event, holds s → meets s event → holds (step s event)) (events : List ε) (s : σ)
    (initial : holds s) (along : Along step meets s events) : ∀ t ∈ states step s events, holds t := by
  induction events generalizing s with
  | nil => simpa [states] using initial
  | cons event rest ih =>
    intro t member
    rcases List.mem_cons.mp member with rfl | later
    · exact initial
    · exact ih (step s event) (preserved s event initial along.1) along.2 t later

theorem always (step : σ → ε → σ) (holds : σ → Prop) (preserved : ∀ s event, holds s → holds (step s event))
    (events : List ε) (s : σ) (initial : holds s) : ∀ t ∈ states step s events, holds t := by
  have free (s : σ) : Along step (fun _ _ => True) s events := by
    induction events generalizing s with
    | nil => trivial
    | cons event rest ih => exact ⟨trivial, ih (step s event)⟩
  exact invariant step (fun _ _ => True) holds (fun s event now _ => preserved s event now) events s initial (free s)

theorem final_always (step : σ → ε → σ) (holds : σ → Prop) (preserved : ∀ s event, holds s → holds (step s event))
    (events : List ε) (s : σ) (initial : holds s) : holds (final step s events) :=
  always step holds preserved events s initial _ (final_mem_states s events)

/-- A property that a step keeps exactly under a condition holds all along a run
    exactly when all steps meet the condition. -/
theorem all_states_iff {meets : σ → ε → Prop} {holds : σ → Prop}
    (exact : ∀ s event, holds s → (holds (step s event) ↔ meets s event)) (events : List ε) (s : σ)
    (initial : holds s) : (∀ t ∈ states step s events, holds t) ↔ Along step meets s events := by
  induction events generalizing s with
  | nil => simpa [states, Along] using initial
  | cons event rest ih =>
    simp only [states, List.mem_cons, forall_eq_or_imp, initial, true_and, Along]
    constructor
    · intro all
      have next := all _ (first_mem_states _ rest)
      exact ⟨(exact s event initial).mp next, (ih _ next).mp all⟩
    · rintro ⟨here, later⟩
      exact (ih _ ((exact s event initial).mpr here)).mpr later

theorem final_snoc (s : σ) (events : List ε) (event : ε) :
    final step s (events ++ [event]) = step (final step s events) event := by
  simp [final]

theorem final_append (s : σ) (events more : List ε) :
    final step s (events ++ more) = final step (final step s events) more := by
  simp [final]

theorem Along.append {meets : σ → ε → Prop} {events more : List ε} {s : σ} (first : Along step meets s events)
    (later : Along step meets (final step s events) more) : Along step meets s (events ++ more) := by
  induction events generalizing s with
  | nil => exact later
  | cons event rest ih => exact ⟨first.1, ih first.2 later⟩

theorem Along.mono {meets wider : σ → ε → Prop} {events : List ε} {s : σ} (along : Along step meets s events)
    (weaker : ∀ s event, meets s event → wider s event) : Along step wider s events := by
  induction events generalizing s with
  | nil => trivial
  | cons event rest ih => exact ⟨weaker s event along.1, ih along.2⟩

/-- Where each event that is asked for lowers a measure, a run can go on until nothing is
    asked for. -/
theorem exists_exhausted (step : σ → ε → σ) (asks : σ → ε → Prop) (holds : σ → Prop) (measure : σ → Nat)
    (descends : ∀ s event, holds s → asks s event → holds (step s event) ∧ measure (step s event) < measure s)
    (s : σ) (initial : holds s) :
    ∃ events, Along step asks s events ∧ holds (final step s events) ∧ ∀ event, ¬ asks (final step s events) event := by
  generalize level : measure s = n
  induction n using Nat.strongRecOn generalizing s with
  | ind n ih =>
    by_cases asked : ∃ event, asks s event
    · obtain ⟨event, asked⟩ := asked
      obtain ⟨next, lower⟩ := descends s event initial asked
      obtain ⟨events, along, rest⟩ := ih _ (level ▸ lower) (step s event) next rfl
      exact ⟨event :: events, ⟨asked, along⟩, rest⟩
    · exact ⟨[], trivial, initial, fun event held => asked ⟨event, held⟩⟩

/-- What each event does to `τ`, some events do to `σ`: so does a run. -/
theorem simulated {τ δ : Type} {coarse : τ → δ → τ} {related : σ → τ → Prop}
    (simulates : ∀ s t event, related s t → ∃ events, related (final step s events) (coarse t event))
    (events : List δ) {s : σ} {t : τ} (initial : related s t) :
    ∃ finer, related (final step s finer) (final coarse t events) := by
  induction events generalizing s t with
  | nil => exact ⟨[], initial⟩
  | cons event rest ih =>
    obtain ⟨first, between⟩ := simulates s t event initial
    obtain ⟨more, after⟩ := ih between
    refine ⟨first ++ more, ?_⟩
    rw [final_append]
    exact after

/-- The last event of a run is at the place where it is split, or behind it. -/
theorem snoc_eq_cases {events before after : List ε} {event first : ε}
    (split : events ++ [event] = before ++ first :: after) :
    (before = events ∧ first = event ∧ after = []) ∨
      ∃ middle, after = middle ++ [event] ∧ events = before ++ first :: middle := by
  rcases List.eq_nil_or_concat after with rfl | ⟨middle, last, rfl⟩
  · rcases List.append_inj' split rfl with ⟨same, tail⟩
    cases tail
    exact .inl ⟨same.symm, rfl, rfl⟩
  · rw [List.concat_eq_append, ← List.cons_append, ← List.append_assoc] at split
    rcases List.append_inj' split rfl with ⟨same, tail⟩
    cases tail
    exact .inr ⟨middle, List.concat_eq_append, same⟩

def Stands (starts : List ε → ε → Prop) (ends : ε → Prop) (events : List ε) : Prop :=
  ∃ before event after, events = before ++ event :: after ∧ starts before event ∧ ∀ later ∈ after, ¬ ends later

theorem stands_snoc_iff (starts : List ε → ε → Prop) (ends : ε → Prop) (events : List ε) (event : ε) :
    Stands starts ends (events ++ [event]) ↔ starts events event ∨ ¬ ends event ∧ Stands starts ends events := by
  constructor
  · rintro ⟨before, first, after, split, started, still⟩
    rcases snoc_eq_cases split with ⟨rfl, rfl, rfl⟩ | ⟨middle, rfl, earlier⟩
    · exact .inl started
    · refine .inr ⟨still event (by simp), before, first, middle, earlier, started, fun later member => ?_⟩
      exact still later (by simp [member])
  · rintro (started | ⟨lasting, before, first, after, rfl, started, still⟩)
    · exact ⟨events, event, [], rfl, started, by simp⟩
    · refine ⟨before, first, after ++ [event], by simp, started, fun later member => ?_⟩
      rcases List.mem_append.mp member with old | new
      · exact still later old
      · rw [List.mem_singleton.mp new]
        exact lasting

theorem not_stands_nil (starts : List ε → ε → Prop) (ends : ε → Prop) : ¬ Stands starts ends [] := by
  rintro ⟨before, event, after, split, _⟩
  simp at split

def Each (meets : List ε → ε → Prop) (events : List ε) : Prop :=
  ∀ before event after, events = before ++ event :: after → meets before event

theorem each_nil (meets : List ε → ε → Prop) : Each meets [] := by
  intro before event after split
  simp at split

theorem each_snoc_iff (meets : List ε → ε → Prop) (events : List ε) (event : ε) :
    Each meets (events ++ [event]) ↔ Each meets events ∧ meets events event := by
  constructor
  · intro each
    refine ⟨fun before first after split => ?_, each events event [] rfl⟩
    exact each before first (after ++ [event]) (by simp [split])
  · rintro ⟨each, last⟩ before first after split
    rcases snoc_eq_cases split with ⟨rfl, rfl, rfl⟩ | ⟨middle, rfl, earlier⟩
    · exact last
    · exact each before first middle earlier

theorem Each.of_prefix {meets : List ε → ε → Prop} {events history : List ε} (each : Each meets events)
    (part : history <+: events) : Each meets history := by
  obtain ⟨rest, rfl⟩ := part
  intro before event after split
  exact each before event (after ++ rest) (by simp [split])

/-- Where every event either leaves what is read or decides it, the last one that
    decides counts. -/
theorem read_final_iff {β : Type} (read : σ → Option β) (effect : ε → Option (Option β))
    (reads : ∀ s event, read (step s event) = (effect event).getD (read s)) {s : σ} (nothing : read s = none)
    (events : List ε) (value : β) :
    read (final step s events) = some value ↔
      Stands (fun _ event => effect event = some (some value)) (fun event => effect event ≠ none) events := by
  induction events using List.reverseRecOn with
  | nil => simp [final, nothing, not_stands_nil]
  | append_singleton events event ih =>
    rw [final_snoc, stands_snoc_iff, reads]
    cases decides : effect event with
    | some other => simp
    | none => simp [ih]

end Run
