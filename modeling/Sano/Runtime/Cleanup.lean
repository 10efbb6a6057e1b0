import Sano.Runtime.Clocks

namespace Sano.Runtime.Clocks

section Firing

def Cleaned (s : Plugins) (i : Nat) (timer : Timer) : Prop :=
  (∀ key clock, (s.state.clocks .timeout).get? key = some clock → clock.timer ≠ i) ∧
    s.state.released.count timer.callback = 1

theorem Held.cleaned_iff {s : Plugins} (held : Held s.state) {i : Nat} {timer later : Timer}
    (found : s.state.timers[i]? = some later) (same : later.callback = timer.callback) :
    Cleaned s i timer ↔ timer.callback ∈ s.state.released := by
  constructor
  · rintro ⟨_, once⟩
    exact List.count_pos_iff.mp (by omega)
  · intro member
    refine ⟨fun key clock stored own => ?_, List.count_eq_one_of_mem held.once member⟩
    rcases held.entries .timeout key clock stored with ⟨other, here, _, callback⟩
    rw [own, found] at here
    cases here
    exact held.kept .timeout key clock stored (by rw [← callback, same]; exact member)

theorem finish_state {s : Plugins} {i : Nat} {timer : Timer} (running : s.machine.running = some i)
    (found : s.state.timers[i]? = some timer) (timeout : timer.plugin = .timeout) (thrown : Bool) :
    (step s (.finish thrown)).state =
      if thrown then s.state else finalState (clear .timeout (some (.jsInt timer.id)) s.state) := by
  have here : s.machine.state.timers[i]? = some timer := found
  cases thrown <;> simp [step, Runtime.finish, running, here, timeout, Plugins.state]

theorem clear_keeps_timer {s : HostState} {i : Nat} {timer : Timer} (found : s.timers[i]? = some timer)
    (data : Option Handle) :
    ∃ later, (finalState (clear .timeout data s)).timers[i]? = some later ∧ later.callback = timer.callback := by
  rw [clear_final]
  cases parsed data with
  | none => exact ⟨timer, found, rfl⟩
  | some id =>
    simp only
    cases (s.clocks .timeout).get? id with
    | none => exact ⟨timer, found, rfl⟩
    | some clock =>
      rw [cancel_timers, List.getElem?_modify, found]
      by_cases own : clock.timer = i
      · exact ⟨{ timer with active := false }, by simp [own], rfl⟩
      · exact ⟨timer, by simp [own], rfl⟩

theorem clear_releases_iff {s : HostState} (held : Held s) {i : Nat} {timer : Timer}
    (found : s.timers[i]? = some timer) :
    timer.callback ∈ (finalState (clear .timeout (some (.jsInt timer.id)) s)).released ↔
      timer.callback ∈ s.released ∨ ∃ clock, (s.clocks .timeout).get? timer.id = some clock ∧ clock.timer = i := by
  rw [clear_final]
  simp only [parsed]
  cases stored : (s.clocks .timeout).get? timer.id with
  | none => simp
  | some clock =>
    rcases held.entries .timeout timer.id clock stored with ⟨other, here, _, callback⟩
    simp only [cancel_released, List.mem_append, List.mem_singleton, Option.some.injEq, exists_eq_left']
    refine or_congr_right ?_
    constructor
    · intro same
      exact held.apart _ _ other timer here found (callback.trans same.symm)
    · intro own
      rw [own, found] at here
      cases here
      exact callback

theorem finish_cleaned_iff {s : Plugins} (held : Held s.state) {i : Nat} {timer : Timer}
    (running : s.machine.running = some i) (found : s.state.timers[i]? = some timer) (timeout : timer.plugin = .timeout)
    (thrown : Bool) :
    Cleaned (step s (.finish thrown)) i timer ↔
      timer.callback ∈ s.state.released ∨
        thrown = false ∧ ∃ clock, (s.state.clocks .timeout).get? timer.id = some clock ∧ clock.timer = i := by
  have after := finish_state running found timeout thrown
  have safe : Held (step s (.finish thrown)).state := held.finish thrown
  cases thrown with
  | true =>
    simp only [if_true] at after
    rw [safe.cleaned_iff (by rw [after]; exact found) rfl, after]
    simp
  | false =>
    simp only [Bool.false_eq_true, if_false] at after
    rcases clear_keeps_timer found (some (.jsInt timer.id)) with ⟨later, there, same⟩
    rw [safe.cleaned_iff (by rw [after]; exact there) same, after, clear_releases_iff held found]
    simp

end Firing

section Creation

def CreatesCleanly (plugin : Plugin) (reading : Int) (time : Option Handle) (s : HostState) : Prop :=
  Ends (createTimer plugin reading time) s (fun _ _ => True) fun _ t =>
    t.retained = s.retained ∧ ∀ other, t.clocks other = s.clocks other

theorem createsCleanly_iff (plugin : Plugin) (reading : Int) (time : Option Handle) (s : HostState) :
    CreatesCleanly plugin reading time s ↔ parsed time ≠ none := by
  simp only [CreatesCleanly, Ends, createTimer, Bind.bind, EStateM.bind, dupValue, parseDuration_eq]
  cases parsed time with
  | none => simp
  | some duration =>
    cases plugin <;> simp [startTimer, putClock, Pure.pure, EStateM.pure]

/-- When a firing of a timeout ends, in any reachable state, it is cleaned up exactly
    when its reference is given back already, or the call has not thrown and the
    clock under its id is its own. A `createTimer` that throws always leaves a
    reference behind. -/
theorem timeout_cleanup_iff (events : List Event) : ∀ s ∈ Run.states step {} events,
    (∀ i timer thrown, s.machine.running = some i → s.state.timers[i]? = some timer → timer.plugin = .timeout →
      (Cleaned (step s (.finish thrown)) i timer ↔
        timer.callback ∈ s.state.released ∨
          thrown = false ∧ ∃ clock, (s.state.clocks .timeout).get? timer.id = some clock ∧ clock.timer = i)) ∧
    ∀ plugin reading time, CreatesCleanly plugin reading time s.state ↔ parsed time ≠ none := by
  intro s member
  have held := (run_safe events s member).held
  constructor
  · intro i timer thrown running found timeout
    exact finish_cleaned_iff held running found timeout thrown
  · exact fun plugin reading time => createsCleanly_iff plugin reading time s.state

def firing : Plugins := Run.final step {} [.create .timeout none 5, .fire 0]

theorem timeout_cleanup_iff_firing :
    firing.machine.running = some 0 ∧ ∃ timer ∈ firing.state.timers[0]?, timer.plugin = .timeout ∧
      (Cleaned (step firing (.finish false)) 0 timer ↔
        timer.callback ∈ firing.state.released ∨
          false = false ∧ ∃ clock, (firing.state.clocks .timeout).get? timer.id = some clock ∧ clock.timer = 0) := by
  have running : firing.machine.running = some 0 := by decide +kernel
  have there : ∃ timer ∈ firing.state.timers[0]?, timer.plugin = .timeout := by decide +kernel
  obtain ⟨timer, found, timeout⟩ := there
  exact ⟨running, timer, found, timeout,
    (timeout_cleanup_iff _ _ (Run.final_mem_states _ _)).1 0 timer false running found timeout⟩

/-- The callback throws, and its reference is never given back; a timer whose time is
    not a number has retained its callback when it throws. -/
theorem thrown_timeout_leaks :
    firing.machine.running = some 0 ∧
      (∃ timer ∈ firing.state.timers[0]?, timer.plugin = .timeout ∧ ¬ Cleaned (step firing (.finish true)) 0 timer) ∧
      ¬ CreatesCleanly .interval 5 (some (.jsFloat 0x7FF8000000000000#64)) {} := by
  have leaks : ∃ timer ∈ firing.state.timers[0]?, timer.plugin = .timeout ∧
      (step firing (.finish true)).state.released.count timer.callback ≠ 1 := by decide +kernel
  obtain ⟨timer, found, timeout, count⟩ := leaks
  refine ⟨by decide +kernel, ⟨timer, found, timeout, fun cleaned => count cleaned.2⟩, ?_⟩
  rw [createsCleanly_iff]
  decide +kernel

end Creation

end Sano.Runtime.Clocks
