import Sano.Framework.Views

namespace Sano.Framework.Views

variable {α ρ : Type} {rootOf : α → Option ρ}

section Names

theorem reaches_iff_eq {name id : String} (short : ':' ∉ name.toList) (plain : ':' ∉ id.toList) :
    Reaches name id ↔ name = id := by
  constructor
  · intro reaches
    obtain ⟨rest, split⟩ := reaches
    have texts : name.toList ++ ':' :: rest = id.toList ++ [':'] := by simpa using split
    have parts := List.append_eq_append_iff.mp texts
    rcases parts with ⟨more, longer, tail⟩ | ⟨more, shorter, tail⟩
    · -- a longer id would have the colon inside
      cases more with
      | nil => exact String.toList_injective (by simpa using longer.symm)
      | cons first others =>
        have colon : first = ':' := ((List.cons.inj tail).1).symm
        exact absurd (by simp [longer, colon]) plain
    · cases more with
      | nil => exact String.toList_injective (by simpa using shorter)
      | cons first others =>
        have colon : first = ':' := ((List.cons.inj tail).1).symm
        exact absurd (by simp [shorter, colon]) short
  · rintro rfl
    exact List.prefix_refl _

end Names

section Lifecycles

def Lifecycle (before : List (Event α)) : Event α → Prop
  | .initState id => ':' ∉ id.toList ∧ .initState id ∉ before
  | .message _ _ => True
  | .dispose id _ => .initState id ∈ before ∧ ∀ thrown, .dispose id thrown ∉ before

theorem lifecycle_plain {events : List (Event α)} (lives : Run.Each Lifecycle events) {id : String}
    (opened : .initState id ∈ events) : ':' ∉ id.toList := by
  obtain ⟨before, after, split⟩ := List.append_of_mem opened
  exact (lives before _ after split).1

theorem lifecycle_listening {before : List (Event α)} {id : String} {thrown : Bool}
    (lives : Run.Each Lifecycle (before ++ [.dispose id thrown])) : Listening before id := by
  obtain ⟨earlier, here⟩ := (Run.each_snoc_iff _ _ _).mp lives
  obtain ⟨opened, undisposed⟩ := here
  obtain ⟨first, later, rfl⟩ := List.append_of_mem opened
  refine ⟨first, _, later, rfl, rfl, fun event member closes => ?_⟩
  cases event with
  | initState other => exact closes
  | message method args => exact closes
  | dispose name raised =>
    obtain ⟨_, reaches⟩ := closes
    obtain ⟨start, rest, split⟩ := List.append_of_mem member
    have known := (earlier (first ++ .initState id :: start) (.dispose name raised) rest (by simp [split])).1
    have part : first ++ .initState id :: start <+: first ++ .initState id :: later := ⟨.dispose name raised :: rest, by simp [split]⟩
    have there := part.subset known
    have same := (reaches_iff_eq (lifecycle_plain earlier there) (lifecycle_plain earlier opened)).mp reaches
    subst same
    exact undisposed raised (List.mem_append_right _ (List.mem_cons_of_mem _ member))

end Lifecycles

section Steps

theorem bridge_step_registered (s : Bridge.State Handler) (event : Bridge.Event Handler) :
    s.registered ≤ (Bridge.step s event).registered := by
  cases event with
  | dispatch method =>
    simp only [Bridge.step, Bridge.emit]
    split
    · exact Nat.le_refl _
    · split <;> exact Nat.le_refl _
  | on method handle => exact Nat.le_succ _
  | once method handle => exact Nat.le_succ _
  | off method => exact Nat.le_refl _
  | dispose name => exact Nat.le_refl _
  | finish thrown => exact Nat.le_refl _

theorem registered_step (s : State α ρ) (event : Event α) :
    s.bridge.registered ≤ (step rootOf s event).bridge.registered := by
  cases event with
  | initState id => exact Nat.le_trans (bridge_step_registered _ _) (bridge_step_registered _ _)
  | message method args =>
    simp only [step, message]
    split
    · rw [bridge_handle]
      exact Nat.le_trans (bridge_step_registered _ _) (bridge_step_registered _ _)
    · exact bridge_step_registered _ _
  | dispose id thrown =>
    cases thrown
    · exact bridge_step_registered _ _
    · exact Nat.le_refl _

theorem views_length_step (s : State α ρ) (event : Event α) : s.views.length ≤ (step rootOf s event).views.length := by
  cases event with
  | initState id => simp [step, initState]
  | message method args =>
    simp only [step, message]
    split
    next handler there => cases handler <;> simp [handle]
    next => exact Nat.le_refl _
  | dispose id thrown => cases thrown <;> exact Nat.le_refl _

/-- What is stored after an event was stored before it or is new. -/
theorem Wired.get_step {history : List (Event α)} {s : State α ρ} (wired : Wired rootOf history s) {event : Event α}
    {key : String} {listener : Bridge.Listener Handler}
    (stored : (Views.step rootOf s event).bridge.listeners.get? key = some listener) :
    s.bridge.listeners.get? key = some listener ∨ s.bridge.registered ≤ listener.registration := by
  cases event with
  | initState id =>
    simp only [Views.step, Views.initState, Bridge.step, LinkedMap.get?_insert] at stored
    split at stored
    · cases stored
      exact .inr (Nat.le_succ _)
    · split at stored
      · cases stored
        exact .inr (Nat.le_refl _)
      · exact .inl stored
  | message method args => exact .inl ((wired.get_message_iff method args key listener).mp stored).2
  | dispose id thrown =>
    cases thrown with
    | true => exact .inl stored
    | false =>
      simp only [Views.step, Bool.false_eq_true, if_false, Bridge.step, dispose_get] at stored
      split at stored
      · cases stored
      · exact .inl stored

theorem Wired.found_step {history : List (Event α)} {s : State α ρ} (wired : Wired rootOf history s) {event : Event α}
    {key : String} {handler : Handler} (there : found (Views.step rootOf s event) key = some handler) :
    found s key = some handler ∨ handler = .mount s.views.length ∨ handler = .update s.views.length := by
  cases event with
  | initState id =>
    rw [Views.step, found_initState] at there
    split at there
    · cases there
      exact .inr (.inr rfl)
    · split at there
      · cases there
        exact .inr (.inl rfl)
      · exact .inl there
  | message method args => exact .inl ((wired.found_message method args key handler).mp there).2
  | dispose id thrown =>
    cases thrown with
    | true => exact .inl there
    | false =>
      rw [Views.step, if_neg (by simp), found_dispose] at there
      split at there
      · cases there
      · exact .inl there

end Steps

section Sealed

structure Shut (id : String) (early s : State α ρ) : Prop where
  registered : early.bridge.registered ≤ s.bridge.registered
  length : early.views.length ≤ s.views.length
  keys : ∀ key listener, s.bridge.listeners.get? key = some listener → beginsWith key (channelName id) = true →
    early.bridge.registered ≤ listener.registration
  handlers : ∀ view opened, early.views[view]? = some opened → opened.id = id → ∀ method,
    found s method ≠ some (.mount view) ∧ found s method ≠ some (.update view)

theorem begins_own (id method : String) : beginsWith (getMethod id method) (channelName id) = true :=
  (beginsWith_iff id id method).mpr (List.prefix_append _ _)

theorem Wired.begins_of_handler {history : List (Event α)} {s : State α ρ} (wired : Wired rootOf history s) {view : Nat}
    {opened : ViewState ρ} (there : s.views[view]? = some opened) {key : String}
    (handles : found s key = some (.mount view) ∨ found s key = some (.update view)) :
    beginsWith key (channelName opened.id) = true := by
  have updates {key : String} (handles : found s key = some (.update view)) : key = updateKey opened.id := by
    rcases wired.update key view handles with ⟨target, stored, named, _⟩
    rw [there] at stored
    cases stored
    exact named
  rcases handles with mounts | handles
  · rcases wired.mount key view mounts with ⟨own, rfl, handles⟩
    rw [getMethod_left_inj (updates handles)]
    exact begins_own _ _
  · rw [updates handles]
    exact begins_own _ _

theorem Wired.shut {history : List (Event α)} {s : State α ρ} (wired : Wired rootOf history s) (id : String) :
    Shut id s (Views.step rootOf s (.dispose id false)) where
  registered := registered_step s _
  length := views_length_step s _
  keys := by
    intro key listener stored begins
    simp [Views.step, Bridge.step, dispose_get, begins] at stored
  handlers := by
    intro view opened there same method
    have kept {handler : Handler} (after : found (Views.step rootOf s (.dispose id false)) method = some handler) :
        beginsWith method (channelName id) ≠ true ∧ found s method = some handler := by
      rw [Views.step, if_neg (by simp), found_dispose] at after
      split at after
      next => cases after
      next apart => exact ⟨apart, after⟩
    subst same
    constructor
    · intro mounts
      exact (kept mounts).1 (wired.begins_of_handler there (.inl (kept mounts).2))
    · intro updates
      exact (kept updates).1 (wired.begins_of_handler there (.inr (kept updates).2))

theorem Shut.step {id : String} {early s : State α ρ} (shut : Shut id early s) {history : List (Event α)}
    (wired : Wired rootOf history s) (event : Event α) : Shut id early (Views.step rootOf s event) where
  registered := Nat.le_trans shut.registered (registered_step s event)
  length := Nat.le_trans shut.length (views_length_step s event)
  keys := by
    intro key listener stored begins
    rcases wired.get_step stored with before | new
    · exact shut.keys key listener before begins
    · exact Nat.le_trans shut.registered new
  handlers := by
    intro view opened there same method
    have old : view < s.views.length := by
      have bound := (List.getElem?_eq_some_iff.mp there).1
      have longer := shut.length
      omega
    obtain ⟨unmounted, unupdated⟩ := shut.handlers view opened there same method
    constructor
    · intro mounts
      rcases wired.found_step mounts with before | new | new
      · exact unmounted before
      · cases new
        exact Nat.lt_irrefl _ old
      · cases new
    · intro updates
      rcases wired.found_step updates with before | new | new
      · exact unupdated before
      · cases new
      · cases new
        exact Nat.lt_irrefl _ old

theorem shut_after (before : List (Event α)) (id : String) (after : List (Event α)) :
    Shut id (Run.final (Views.step rootOf) {} before)
      (Run.final (Views.step rootOf) {} (before ++ .dispose id false :: after)) := by
  induction after using List.reverseRecOn with
  | nil =>
    rw [Run.final_snoc]
    exact (run_wired before).shut id
  | append_singleton after event ih =>
    rw [← List.cons_append, ← List.append_assoc, Run.final_snoc]
    exact ih.step (run_wired _) event

variable (rootOf) in
def Sealed (history : List (Event α)) : Prop :=
  ∀ before id thrown after, history = before ++ .dispose id thrown :: after →
    let early := Run.final (Views.step rootOf) {} before
    let s := Run.final (Views.step rootOf) {} history
    (∀ key listener, s.bridge.listeners.get? key = some listener → beginsWith key (channelName id) = true →
      early.bridge.registered ≤ listener.registration) ∧
    ∀ view opened, early.views[view]? = some opened → opened.id = id → ∀ method,
      found s method ≠ some (.mount view) ∧ found s method ≠ some (.update view)

theorem not_sealed_of_thrown (before : List (Event α)) {id : String}
    (lives : Run.Each Lifecycle (before ++ [.dispose id true])) : ¬ Sealed rootOf (before ++ [.dispose id true]) := by
  intro closed
  have wired : Wired rootOf before (Run.final (Views.step rootOf) {} before) := run_wired before
  have there := (wired.listening id).mpr (lifecycle_listening lives)
  obtain ⟨handler, stands⟩ := Option.ne_none_iff_exists'.mp there
  obtain ⟨_, listener, stored, _⟩ := found_listener stands
  have after : Run.final (Views.step rootOf) {} (before ++ [.dispose id true]) =
      Run.final (Views.step rootOf) {} before := Run.final_snoc _ _ _
  have late := (closed before id true [] rfl).1 (updateKey id) listener (by rw [after]; exact stored) (begins_own _ _)
  exact Nat.not_lt_of_le late (wired.table.numbered _ _ stored)

/-- Every closed view is unreachable, all along the run, exactly when no `unmount`
    has thrown. -/
theorem closed_unreachable_iff (events : List (Event α)) (lives : Run.Each Lifecycle events) :
    (∀ history, history <+: events → Sealed rootOf history) ↔ ∀ id, .dispose id true ∉ events := by
  constructor
  · intro closed id thrown
    obtain ⟨before, after, split⟩ := List.append_of_mem thrown
    have part : before ++ [.dispose id true] <+: events := ⟨after, by simp [split]⟩
    exact not_sealed_of_thrown before (lives.of_prefix part) (closed _ part)
  · intro calm history part before id thrown after split
    cases thrown with
    | true => exact absurd (part.subset (by simp [split])) (calm id)
    | false =>
      subst split
      exact ⟨(shut_after before id after).keys, (shut_after before id after).handlers⟩

def visit (thrown : Bool) : List (Event String) :=
  [.initState "a", .message (mountKey "a") "", .dispose "a" thrown]

theorem visit_lifecycle (thrown : Bool) : Run.Each Lifecycle (visit thrown) := by
  have first : Run.Each Lifecycle [(.initState "a" : Event String)] :=
    (Run.each_snoc_iff _ [] _).mpr ⟨Run.each_nil _, by decide, by simp⟩
  have second : Run.Each Lifecycle [.initState "a", .message (mountKey "a") ""] :=
    (Run.each_snoc_iff _ [_] _).mpr ⟨first, trivial⟩
  exact (Run.each_snoc_iff _ [_, _] _).mpr ⟨second, by simp, by simp⟩

theorem closed_unreachable_iff_visit :
    Run.Each Lifecycle (visit false) ∧
      ((∀ history, history <+: visit false → Sealed (some : String → Option String) history) ↔
        ∀ id, .dispose id true ∉ visit false) :=
  ⟨visit_lifecycle false, closed_unreachable_iff _ (visit_lifecycle false)⟩

/-- The `unmount` of a mounted view throws, and its handler for updates is still there. -/
theorem thrown_unmount_reachable :
    Run.Each Lifecycle (visit true) ∧ ¬ Sealed (some : String → Option String) (visit true) :=
  ⟨visit_lifecycle true, not_sealed_of_thrown [_, _] (visit_lifecycle true)⟩

end Sealed

end Sano.Framework.Views
