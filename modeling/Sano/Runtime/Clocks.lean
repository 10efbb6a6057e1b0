import Sano.Base.Run
import Sano.Runtime.Timer

namespace Sano.Runtime.Clocks

section Model

/-- The steps of the two plugins. A callback ends normally or with an exception,
    and the task of a `free` runs some time after it. -/
inductive Event where
  | create (plugin : Plugin) (time : Option Handle) (reading : Int)
  | clear (plugin : Plugin) (data : Option Handle)
  | fire (timer : Nat)
  | finish (thrown : Bool)
  | release

structure Plugins where
  machine : Machine := {}
  freed : List Nat := []

def Plugins.state (s : Plugins) : HostState := s.machine.state

def Plugins.withState (s : Plugins) (state : HostState) : Plugins :=
  { s with machine := { s.machine with state } }

def step (s : Plugins) : Event → Plugins
  | .create plugin time reading => s.withState (finalState (createTimer plugin reading time s.state))
  | .clear plugin data => s.withState (finalState (clear plugin data s.state))
  | .fire i => { s with machine := fire s.machine i }
  | .finish thrown => { s with machine := finish s.machine thrown }
  | .release => { s with freed := s.freed ++ (s.state.released[s.freed.length]?).toList }

end Model

section Effects

def parsed : Option Handle → Option Int
  | some (.jsFloat bits) => bits.toInt
  | some (.jsInt value) => some value
  | _ => some 0

theorem parseDuration_eq (data : Option Handle) (s : HostState) :
    parseDuration data s = match parsed data with
      | some value => .ok value s
      | none => .error .unsupported s := by
  cases data with
  | none => rfl
  | some handle =>
    cases handle with
    | jsFloat bits =>
      simp only [parseDuration, parsed]
      cases bits.toInt <;> rfl
    | _ => rfl

def added (s : HostState) (plugin : Plugin) (reading duration : Int) : HostState :=
  HostState.withClocks
    { s with
      retained := s.retained + 1
      timers := s.timers ++ [{ plugin, duration, callback := s.retained, id := int64Value reading }] }
    ((s.clocks plugin).insert reading ⟨s.timers.length, s.retained⟩) plugin

theorem create_final (plugin : Plugin) (time : Option Handle) (reading : Int) (s : HostState) :
    finalState (createTimer plugin reading time s) = match parsed time with
      | some duration => added s plugin reading duration
      | none => { s with retained := s.retained + 1 } := by
  simp only [createTimer, Bind.bind, EStateM.bind, dupValue, parseDuration_eq]
  cases parsed time with
  | none => rfl
  | some duration => cases plugin <;> rfl

theorem clear_final (plugin : Plugin) (data : Option Handle) (s : HostState) :
    finalState (clear plugin data s) = match parsed data with
      | some id =>
        match (s.clocks plugin).get? id with
        | some clock => cancel s plugin id clock
        | none => s
      | none => s := by
  simp only [clear, Bind.bind, EStateM.bind, parseDuration_eq]
  cases parsed data with
  | none => rfl
  | some id =>
    simp only
    cases (s.clocks plugin).get? id <;> rfl

end Effects

section Handles

/-- Every clock is the only one of its timer and holds that timer's own reference,
    and a reference that is given back belongs to no clock and no active timer. -/
structure Held (s : HostState) : Prop where
  entries : ∀ plugin key clock, (s.clocks plugin).get? key = some clock →
    ∃ timer, s.timers[clock.timer]? = some timer ∧ timer.plugin = plugin ∧ timer.callback = clock.callback
  alone : ∀ plugin key key' clock clock', (s.clocks plugin).get? key = some clock →
    (s.clocks plugin).get? key' = some clock' → clock.timer = clock'.timer → key = key'
  apart : ∀ (i j : Nat) (timer other : Timer), s.timers[i]? = some timer → s.timers[j]? = some other →
    timer.callback = other.callback → i = j
  known : ∀ (i : Nat) (timer : Timer), s.timers[i]? = some timer → timer.callback < s.retained
  past : ∀ r ∈ s.released, r < s.retained
  once : s.released.Nodup
  kept : ∀ plugin key clock, (s.clocks plugin).get? key = some clock → clock.callback ∉ s.released
  stopped : ∀ (i : Nat) (timer : Timer), s.timers[i]? = some timer → timer.callback ∈ s.released →
    timer.active = false

theorem getElem?_push {α : Type} {items : List α} {item found : α} {i : Nat} (get : (items ++ [item])[i]? = some found) :
    items[i]? = some found ∨ i = items.length ∧ found = item := by
  rw [List.getElem?_append] at get
  split at get
  · exact .inl get
  · right
    cases distance : i - items.length with
    | zero =>
      rw [distance] at get
      exact ⟨by omega, by simpa using get.symm⟩
    | succ n =>
      rw [distance] at get
      cases get

theorem added_get (s : HostState) (plugin other : Plugin) (reading duration key : Int) :
    ((added s plugin reading duration).clocks other).get? key =
      if plugin = other ∧ reading = key then some ⟨s.timers.length, s.retained⟩ else (s.clocks other).get? key := by
  cases plugin <;> cases other <;> simp [added, HostState.withClocks, HostState.clocks]

theorem added_clock {s : HostState} {plugin other : Plugin} {reading duration key : Int} {clock : Clock}
    (found : ((added s plugin reading duration).clocks other).get? key = some clock) :
    (s.clocks other).get? key = some clock ∨
      plugin = other ∧ key = reading ∧ clock = ⟨s.timers.length, s.retained⟩ := by
  rw [added_get] at found
  split at found
  next here => exact .inr ⟨here.1, here.2.symm, (Option.some.inj found).symm⟩
  next => exact .inl found

theorem added_timers (s : HostState) (plugin : Plugin) (reading duration : Int) :
    (added s plugin reading duration).timers =
      s.timers ++ [{ plugin, duration, callback := s.retained, id := int64Value reading }] := by
  cases plugin <;> rfl

theorem added_retained (s : HostState) (plugin : Plugin) (reading duration : Int) :
    (added s plugin reading duration).retained = s.retained + 1 := by
  cases plugin <;> rfl

theorem added_released (s : HostState) (plugin : Plugin) (reading duration : Int) :
    (added s plugin reading duration).released = s.released := by
  cases plugin <;> rfl

theorem Held.added {s : HostState} (held : Held s) (plugin : Plugin) (reading duration : Int) :
    Held (added s plugin reading duration) where
  entries := by
    intro other key clock found
    rw [added_timers]
    rcases added_clock found with old | ⟨rfl, rfl, rfl⟩
    · rcases held.entries other key clock old with ⟨timer, here, rest⟩
      have bound := (List.getElem?_eq_some_iff.mp here).1
      exact ⟨timer, by rw [List.getElem?_append_left bound, here], rest⟩
    · exact ⟨_, List.getElem?_concat_length, rfl, rfl⟩
  alone := by
    intro other key key' clock clock' found found' same
    have older {key : Int} {clock : Clock} (old : (s.clocks other).get? key = some clock) :
        clock.timer < s.timers.length := by
      rcases held.entries other key clock old with ⟨timer, here, _⟩
      exact (List.getElem?_eq_some_iff.mp here).1
    rcases added_clock found with old | ⟨rfl, rfl, rfl⟩
    · rcases added_clock found' with old' | ⟨rfl, rfl, rfl⟩
      · exact held.alone other key key' clock clock' old old' same
      · have := older old
        simp only at same
        omega
    · rcases added_clock found' with old' | ⟨_, rfl, rfl⟩
      · have := older old'
        simp only at same
        omega
      · rfl
  apart := by
    intro i j timer other found found' same
    rw [added_timers] at found found'
    rcases getElem?_push found with old | ⟨rfl, rfl⟩
    · rcases getElem?_push found' with old' | ⟨rfl, rfl⟩
      · exact held.apart i j timer other old old' same
      · have := held.known i timer old
        simp only at same
        omega
    · rcases getElem?_push found' with old' | ⟨rfl, rfl⟩
      · have := held.known j other old'
        simp only at same
        omega
      · rfl
  known := by
    intro i timer found
    rw [added_timers] at found
    rw [added_retained]
    rcases getElem?_push found with old | ⟨rfl, rfl⟩
    · have := held.known i timer old
      omega
    · simp
  past := by
    intro r member
    rw [added_released] at member
    rw [added_retained]
    have := held.past r member
    omega
  once := by
    rw [added_released]
    exact held.once
  kept := by
    intro other key clock found
    rw [added_released]
    rcases added_clock found with old | ⟨rfl, rfl, rfl⟩
    · exact held.kept other key clock old
    · intro member
      have := held.past _ member
      simp only at this
      omega
  stopped := by
    intro i timer found member
    rw [added_timers] at found
    rw [added_released] at member
    rcases getElem?_push found with old | ⟨rfl, rfl⟩
    · exact held.stopped i timer old member
    · have := held.past _ member
      simp only at this
      omega

theorem cancel_get (s : HostState) (plugin other : Plugin) (key key' : Int) (clock : Clock) :
    ((cancel s plugin key clock).clocks other).get? key' =
      if plugin = other ∧ key = key' then none else (s.clocks other).get? key' := by
  cases plugin <;> cases other <;> simp [cancel, HostState.withClocks, HostState.clocks]

theorem cancel_clock {s : HostState} {plugin other : Plugin} {key key' : Int} {clock clock' : Clock}
    (found : ((cancel s plugin key clock).clocks other).get? key' = some clock') :
    (s.clocks other).get? key' = some clock' ∧ (plugin = other → key ≠ key') := by
  rw [cancel_get] at found
  split at found
  next => cases found
  next away => exact ⟨found, fun own here => away ⟨own, here⟩⟩

theorem cancel_retained (s : HostState) (plugin : Plugin) (key : Int) (clock : Clock) :
    (cancel s plugin key clock).retained = s.retained := by
  cases plugin <;> rfl

theorem cancel_released (s : HostState) (plugin : Plugin) (key : Int) (clock : Clock) :
    (cancel s plugin key clock).released = s.released ++ [clock.callback] := by
  cases plugin <;> rfl

/-- A timer that is changed only in whether it is active. -/
theorem getElem?_switched {timers : List Timer} {i j : Nat} {timer : Timer} (switch : Timer → Bool)
    (found : (timers.modify i fun timer => { timer with active := switch timer })[j]? = some timer) :
    ∃ old, timers[j]? = some old ∧ old.plugin = timer.plugin ∧ old.callback = timer.callback ∧ old.id = timer.id ∧
      (i = j → timer.active = switch old) ∧ (i ≠ j → old = timer) := by
  rw [List.getElem?_modify] at found
  rcases Option.map_eq_some_iff.mp found with ⟨old, here, changed⟩
  by_cases same : i = j
  · rw [if_pos same] at changed
    subst changed
    exact ⟨old, here, rfl, rfl, rfl, fun _ => rfl, fun other => absurd same other⟩
  · rw [if_neg same] at changed
    subst changed
    exact ⟨old, here, rfl, rfl, rfl, fun equal => absurd equal same, fun _ => rfl⟩

theorem Held.cancel {s : HostState} (held : Held s) {plugin : Plugin} {key : Int} {clock : Clock}
    (entry : (s.clocks plugin).get? key = some clock) : Held (cancel s plugin key clock) where
  entries := by
    intro other key' clock' found
    rw [cancel_timers, List.getElem?_modify]
    rcases held.entries other key' clock' (cancel_clock found).1 with ⟨timer, here, rest⟩
    rw [here]
    split
    · exact ⟨_, rfl, rest⟩
    · exact ⟨_, rfl, rest⟩
  alone := by
    intro other key' key'' clock' clock'' found found' same
    exact held.alone other _ _ _ _ (cancel_clock found).1 (cancel_clock found').1 same
  apart := by
    intro i j timer other found found' same
    rw [cancel_timers] at found found'
    rcases getElem?_switched (fun _ => false) found with ⟨old, here, _, callback, _⟩
    rcases getElem?_switched (fun _ => false) found' with ⟨old', here', _, callback', _⟩
    exact held.apart i j old old' here here' (by rw [callback, callback', same])
  known := by
    intro i timer found
    rw [cancel_timers] at found
    rw [cancel_retained]
    rcases getElem?_switched (fun _ => false) found with ⟨old, here, _, callback, _⟩
    rw [← callback]
    exact held.known i old here
  past := by
    intro r member
    rw [cancel_released] at member
    rw [cancel_retained]
    rcases List.mem_append.mp member with old | new
    · exact held.past r old
    · rcases held.entries plugin key clock entry with ⟨timer, here, _, callback⟩
      rw [List.mem_singleton.mp new, ← callback]
      exact held.known _ timer here
  once := by
    rw [cancel_released]
    apply List.Nodup.append held.once (by simp)
    simpa using held.kept plugin key clock entry
  kept := by
    intro other key' clock' found member
    rw [cancel_released] at member
    rcases cancel_clock found with ⟨old, away⟩
    rcases List.mem_append.mp member with before | new
    · exact held.kept other key' clock' old before
    · -- the entry that is removed is the only one with this reference
      rcases held.entries plugin key clock entry with ⟨timer, here, kind, callback⟩
      rcases held.entries other key' clock' old with ⟨timer', here', kind', callback'⟩
      have index := held.apart _ _ timer timer' here here' (by rw [callback, callback', List.mem_singleton.mp new])
      rw [index, here'] at here
      cases here
      have own : plugin = other := kind.symm.trans kind'
      subst own
      exact away rfl (held.alone plugin key key' clock clock' entry old index)
  stopped := by
    intro i timer found member
    rw [cancel_timers] at found
    rw [cancel_released] at member
    rcases getElem?_switched (fun _ => false) found with ⟨old, here, _, callback, _, off, same⟩
    by_cases own : clock.timer = i
    · exact off own
    · have unchanged := same own
      subst unchanged
      rcases List.mem_append.mp member with before | new
      · exact held.stopped i old here before
      · rcases held.entries plugin key clock entry with ⟨timer', here', _, callback'⟩
        exact absurd (held.apart _ _ timer' old here' here (by rw [callback', List.mem_singleton.mp new])) own

theorem Held.retain {s : HostState} (held : Held s) : Held { s with retained := s.retained + 1 } where
  entries plugin key clock found := held.entries plugin key clock (by cases plugin <;> exact found)
  alone plugin key key' clock clock' found found' :=
    held.alone plugin key key' clock clock' (by cases plugin <;> exact found) (by cases plugin <;> exact found')
  apart := held.apart
  known i timer found := Nat.lt_succ_of_lt (held.known i timer found)
  past r member := Nat.lt_succ_of_lt (held.past r member)
  once := held.once
  kept plugin key clock found := held.kept plugin key clock (by cases plugin <;> exact found)
  stopped := held.stopped

theorem Held.create {s : HostState} (held : Held s) (plugin : Plugin) (time : Option Handle) (reading : Int) :
    Held (finalState (createTimer plugin reading time s)) := by
  rw [create_final]
  cases parsed time with
  | none => exact held.retain
  | some duration => exact held.added plugin reading duration

theorem Held.clear {s : HostState} (held : Held s) (plugin : Plugin) (data : Option Handle) :
    Held (finalState (clear plugin data s)) := by
  rw [clear_final]
  cases parsed data with
  | none => exact held
  | some id =>
    simp only
    cases entry : (s.clocks plugin).get? id with
    | none => exact held
    | some clock => exact held.cancel entry

/-- A timer that fires is active, so its reference has not been given back. -/
theorem Held.fire {m : Machine} (held : Held m.state) (i : Nat) : Held (fire m i).state := by
  unfold Runtime.fire
  split
  next timer _ found =>
    split
    next active =>
      refine ⟨?_, ?_, ?_, ?_, held.past, held.once, ?_, ?_⟩
      · intro plugin key clock entry
        rcases held.entries plugin key clock (by cases plugin <;> exact entry) with ⟨before, here, kind, callback⟩
        rw [List.getElem?_modify, here]
        split
        · exact ⟨_, rfl, kind, callback⟩
        · exact ⟨_, rfl, kind, callback⟩
      · intro plugin key key' clock clock' entry entry'
        exact held.alone plugin key key' clock clock' (by cases plugin <;> exact entry) (by cases plugin <;> exact entry')
      · intro j k first second get get' same
        rcases getElem?_switched _ get with ⟨before, here, _, callback, _⟩
        rcases getElem?_switched _ get' with ⟨before', here', _, callback', _⟩
        exact held.apart j k before before' here here' (by rw [callback, callback', same])
      · intro j later get
        rcases getElem?_switched _ get with ⟨before, here, _, callback, _⟩
        rw [← callback]
        exact held.known j before here
      · intro plugin key clock entry
        exact held.kept plugin key clock (by cases plugin <;> exact entry)
      · intro j later get member
        rcases getElem?_switched _ get with ⟨before, here, _, callback, _, _, other⟩
        by_cases same : i = j
        · subst same
          rw [found] at here
          cases here
          rw [← callback] at member
          rw [held.stopped i timer found member] at active
          cases active
        · rw [← other same]
          rw [← callback] at member
          exact held.stopped j before here member
    next => exact held
  next => exact held

theorem Held.finish {m : Machine} (held : Held m.state) (thrown : Bool) : Held (finish m thrown).state := by
  unfold Runtime.finish
  split
  · exact held
  · split
    · split
      · exact held.clear .timeout _
      · exact held
    · exact held

structure Safe (s : Plugins) : Prop where
  held : Held s.state
  order : s.freed <+: s.state.released

theorem create_released (plugin : Plugin) (time : Option Handle) (reading : Int) (s : HostState) :
    (finalState (createTimer plugin reading time s)).released = s.released := by
  rw [create_final]
  cases parsed time with
  | none => rfl
  | some duration => exact added_released s plugin reading duration

theorem clear_released (plugin : Plugin) (data : Option Handle) (s : HostState) :
    s.released <+: (finalState (clear plugin data s)).released := by
  rw [clear_final]
  cases parsed data with
  | none => exact List.prefix_rfl
  | some id =>
    simp only
    cases (s.clocks plugin).get? id with
    | none => exact List.prefix_rfl
    | some clock =>
      rw [cancel_released]
      exact List.prefix_append _ _

theorem fire_released (m : Machine) (i : Nat) : (fire m i).state.released = m.state.released := by
  unfold Runtime.fire
  split
  · split <;> rfl
  · rfl

theorem finish_released (m : Machine) (thrown : Bool) : m.state.released <+: (finish m thrown).state.released := by
  unfold Runtime.finish
  split
  · exact List.prefix_rfl
  · split
    · split
      · exact clear_released .timeout _ _
      · exact List.prefix_rfl
    · exact List.prefix_rfl

theorem prefix_next {α : Type} {first all : List α} (order : first <+: all) :
    first ++ (all[first.length]?).toList <+: all := by
  rcases order with ⟨rest, rfl⟩
  cases rest with
  | nil => simp
  | cons next rest => simp

theorem Safe.step {s : Plugins} (safe : Safe s) (event : Event) : Safe (step s event) := by
  cases event with
  | create plugin time reading =>
    have released := create_released plugin time reading s.state
    exact ⟨safe.held.create plugin time reading, released ▸ safe.order⟩
  | clear plugin data => exact ⟨safe.held.clear plugin data, safe.order.trans (clear_released plugin data s.state)⟩
  | fire i =>
    have released := fire_released s.machine i
    exact ⟨safe.held.fire i, released ▸ safe.order⟩
  | finish thrown => exact ⟨safe.held.finish thrown, safe.order.trans (finish_released s.machine thrown)⟩
  | release => exact ⟨safe.held, prefix_next safe.order⟩

theorem initial_held : Held {} where
  entries plugin key clock found := by cases plugin <;> cases found
  alone plugin key key' clock clock' found := by cases plugin <;> cases found
  apart i j timer other found := by cases found
  known i timer found := by cases found
  past r member := by cases member
  once := List.nodup_nil
  kept plugin key clock found := by cases plugin <;> cases found
  stopped i timer found := by cases found

theorem run_safe (events : List Event) : ∀ s ∈ Run.states step {} events, Safe s :=
  Run.always step Safe (fun _ event safe => safe.step event) events {} ⟨initial_held, List.prefix_rfl⟩

/-- Along every run a reference is given back at most once, and a firing that
    starts a call has a reference that nobody has asked to give back. -/
theorem callbacks_used_safely (events : List Event) : ∀ s ∈ Run.states step {} events,
    (∀ r, s.state.released.count r ≤ 1 ∧ s.freed.count r ≤ 1) ∧
      ∀ (i : Nat) (timer : Timer), s.state.timers[i]? = some timer →
        (step s (.fire i)).machine.invoked ≠ s.machine.invoked → timer.callback ∉ s.state.released := by
  intro s member
  have safe := run_safe events s member
  constructor
  · intro r
    have freed : s.freed.Nodup := safe.held.once.sublist safe.order.sublist
    exact ⟨List.nodup_iff_count_le_one.mp safe.held.once r, List.nodup_iff_count_le_one.mp freed r⟩
  · intro i timer found starts released
    have stopped := safe.held.stopped i timer found released
    apply starts
    simp only [Clocks.step, Runtime.fire]
    split
    next timer' _ found' =>
      have same : timer' = timer := Option.some.inj (found'.symm.trans found)
      simp [same, stopped]
    next => rfl

/-- A timeout that clears itself in its callback gives its reference back once. -/
theorem callbacks_used_safely_self_clear :
    let last := Run.final step {} [.create .timeout none 5, .fire 0, .clear .timeout (some (.jsInt 5)), .finish false,
      .release]
    last.freed = [0] ∧ (∀ r, last.state.released.count r ≤ 1 ∧ last.freed.count r ≤ 1) :=
  ⟨by decide +kernel, (callbacks_used_safely _ _ (Run.final_mem_states _ _)).1⟩

end Handles

end Sano.Runtime.Clocks
