import Sano.Runtime.Clocks

namespace Sano.Runtime.Clocks

section Live

/-- `live` are the timers that have been created and neither cleared by their id
    nor, for timeouts, fired to the end. -/
structure Watched where
  plugins : Plugins := {}
  live : List Nat := []

def named (s : HostState) (plugin : Plugin) (id : Int) (i : Nat) : Bool :=
  (s.timers[i]?).any fun timer => timer.plugin = plugin ∧ timer.id = id

def remaining (s : Plugins) (live : List Nat) : Event → List Nat
  | .create _ time _ => if (parsed time).isSome then live ++ [s.state.timers.length] else live
  | .clear plugin data =>
    match parsed data with
    | some id => live.filter fun i => !named s.state plugin id i
    | none => live
  | .finish false =>
    match s.machine.running with
    | some i => if (s.state.timers[i]?).any (·.plugin = .timeout) then live.filter (· ≠ i) else live
    | none => live
  | _ => live

def watch (w : Watched) (event : Event) : Watched := ⟨step w.plugins event, remaining w.plugins w.live event⟩

structure Independent (w : Watched) : Prop where
  clock : ∀ i ∈ w.live, ∃ timer, w.plugins.state.timers[i]? = some timer ∧
    ∃ key, (w.plugins.state.clocks timer.plugin).get? key = some ⟨i, timer.callback⟩ ∧
      ∀ key' clock, (w.plugins.state.clocks timer.plugin).get? key' = some clock → clock.timer = i → key' = key
  timer : ∀ plugin key clock, (w.plugins.state.clocks plugin).get? key = some clock →
    clock.timer ∈ w.live ∧ ∃ timer, w.plugins.state.timers[clock.timer]? = some timer ∧ timer.plugin = plugin
  fires : ∀ i ∈ w.live, ∀ timer, w.plugins.state.timers[i]? = some timer →
    timer.active = true ∨ w.plugins.machine.running = some i ∧ timer.plugin = .timeout
  kept : ∀ i ∈ w.live, ∀ timer, w.plugins.state.timers[i]? = some timer →
    timer.callback ∉ w.plugins.state.released

def closing (s : Plugins) : Option Int :=
  s.machine.running.bind fun i => (s.state.timers[i]?).bind fun timer =>
    if timer.plugin = .timeout then some timer.id else none

/-- The key of a new timer is free, also of a pending clear, and can be read back
    from the number that JS gets. Callbacks return normally. -/
def Distinct (w : Watched) : Event → Prop
  | .create plugin time reading =>
    parsed time ≠ none → (w.plugins.state.clocks plugin).get? reading = none ∧ int64Value reading = reading ∧
      (plugin = .timeout → closing w.plugins ≠ some reading)
  | .finish thrown => thrown = false
  | _ => True

end Live

section Keys

structure Keyed (s : HostState) (running : Option Nat) (live : List Nat) : Prop where
  held : Held s
  present : ∀ i, i ∈ live ∨ running = some i → ∃ timer, s.timers[i]? = some timer
  ids : ∀ i ∈ live, ∀ timer, s.timers[i]? = some timer →
    (s.clocks timer.plugin).get? timer.id = some ⟨i, timer.callback⟩
  listed : ∀ plugin key clock, (s.clocks plugin).get? key = some clock → clock.timer ∈ live
  fires : ∀ i ∈ live, ∀ timer, s.timers[i]? = some timer →
    timer.active = true ∨ running = some i ∧ timer.plugin = .timeout
  active : ∀ (i : Nat) (timer : Timer), s.timers[i]? = some timer → timer.active = true → i ∈ live
  own : ∀ i, running = some i → ∀ timer, s.timers[i]? = some timer → timer.plugin = .timeout →
    ∀ clock, (s.clocks .timeout).get? timer.id = some clock → clock.timer = i

theorem Keyed.key {s : HostState} {running : Option Nat} {live : List Nat} (keyed : Keyed s running live)
    {plugin : Plugin} {key : Int} {clock : Clock} (entry : (s.clocks plugin).get? key = some clock) :
    ∃ timer, s.timers[clock.timer]? = some timer ∧ timer.plugin = plugin ∧ timer.id = key := by
  rcases keyed.held.entries plugin key clock entry with ⟨timer, found, kind, _⟩
  have other := keyed.ids _ (keyed.listed plugin key clock entry) timer found
  subst kind
  exact ⟨timer, found, rfl, keyed.held.alone _ _ _ _ _ other entry rfl⟩

theorem Keyed.independent {w : Watched} (keyed : Keyed w.plugins.state w.plugins.machine.running w.live) :
    Independent w where
  clock := by
    intro i member
    rcases keyed.present i (.inl member) with ⟨timer, found⟩
    have entry := keyed.ids i member timer found
    refine ⟨timer, found, timer.id, entry, fun key' clock other same => ?_⟩
    exact keyed.held.alone _ _ _ _ _ other entry same
  timer := by
    intro plugin key clock entry
    rcases keyed.key entry with ⟨timer, found, kind, _⟩
    exact ⟨keyed.listed plugin key clock entry, timer, found, kind⟩
  fires := keyed.fires
  kept := by
    intro i member timer found
    exact keyed.held.kept _ _ _ (keyed.ids i member timer found)

theorem mem_live_of_old {s : HostState} {live : List Nat} {i : Nat} {timer : Timer} (old : s.timers[i]? = some timer)
    (member : i ∈ live ++ [s.timers.length]) : i ∈ live := by
  rcases List.mem_append.mp member with before | new
  · exact before
  · have bound := (List.getElem?_eq_some_iff.mp old).1
    have := List.mem_singleton.mp new
    omega

theorem Keyed.added {s : HostState} {running : Option Nat} {live : List Nat} (keyed : Keyed s running live)
    {plugin : Plugin} {reading : Int} (duration : Int) (free : (s.clocks plugin).get? reading = none)
    (readable : int64Value reading = reading)
    (closed : ∀ i, running = some i → ∀ timer, s.timers[i]? = some timer → timer.plugin = .timeout →
      plugin = .timeout → timer.id ≠ reading) :
    Keyed (added s plugin reading duration) running (live ++ [s.timers.length]) where
  held := keyed.held.added plugin reading duration
  present := by
    intro i among
    rw [added_timers]
    have old (among : i ∈ live ∨ running = some i) :
        ∃ timer, (s.timers ++ [{ plugin, duration, callback := s.retained, id := int64Value reading }])[i]? =
          some timer := by
      rcases keyed.present i among with ⟨timer, found⟩
      exact ⟨timer, by rw [List.getElem?_append_left (List.getElem?_eq_some_iff.mp found).1, found]⟩
    rcases among with member | runs
    · rcases List.mem_append.mp member with before | new
      · exact old (.inl before)
      · rw [List.mem_singleton.mp new]
        exact ⟨_, List.getElem?_concat_length⟩
    · exact old (.inr runs)
  ids := by
    intro i member timer found
    rw [added_timers] at found
    rw [added_get]
    rcases getElem?_push found with old | ⟨rfl, rfl⟩
    · have entry := keyed.ids i (mem_live_of_old old member) timer old
      have away : ¬ (plugin = timer.plugin ∧ reading = timer.id) := by
        rintro ⟨rfl, rfl⟩
        rw [free] at entry
        cases entry
      rw [if_neg away]
      exact entry
    · simp [readable]
  listed := by
    intro other key clock found
    rcases added_clock found with old | ⟨_, _, rfl⟩
    · exact List.mem_append_left _ (keyed.listed other key clock old)
    · exact List.mem_append_right _ (List.mem_singleton_self _)
  fires := by
    intro i member timer found
    rw [added_timers] at found
    rcases getElem?_push found with old | ⟨rfl, rfl⟩
    · exact keyed.fires i (mem_live_of_old old member) timer old
    · exact .inl rfl
  active := by
    intro i timer found on
    rw [added_timers] at found
    rcases getElem?_push found with old | ⟨rfl, rfl⟩
    · exact List.mem_append_left _ (keyed.active i timer old on)
    · exact List.mem_append_right _ (List.mem_singleton_self _)
  own := by
    intro i runs timer found kind clock entry
    rw [added_timers] at found
    rcases getElem?_push found with old | ⟨rfl, rfl⟩
    · rcases added_clock entry with before | ⟨same, key, _⟩
      · exact keyed.own i runs timer old kind clock before
      · exact absurd key (closed i runs timer old kind same)
    · rcases keyed.present _ (.inr runs) with ⟨_, wrong⟩
      simp at wrong

theorem Keyed.cancel {s : HostState} {running : Option Nat} {live : List Nat} (keyed : Keyed s running live)
    {plugin : Plugin} {key : Int} {clock : Clock} (entry : (s.clocks plugin).get? key = some clock)
    {live' : List Nat} (gone : ∀ i, i ∈ live' ↔ i ∈ live ∧ i ≠ clock.timer) :
    Keyed (cancel s plugin key clock) running live' where
  held := keyed.held.cancel entry
  present := by
    intro i among
    rcases keyed.present i (among.imp_left fun member => ((gone i).mp member).1) with ⟨timer, found⟩
    rw [cancel_timers, List.getElem?_modify, found]
    split <;> exact ⟨_, rfl⟩
  ids := by
    intro i member timer found
    rw [cancel_timers] at found
    rcases (gone i).mp member with ⟨before, other⟩
    rcases getElem?_switched (fun _ => false) found with ⟨old, here, _, _, _, _, same⟩
    have unchanged := same (Ne.symm other)
    subst unchanged
    have still := keyed.ids i before old here
    have away : ¬ (plugin = old.plugin ∧ key = old.id) := by
      rintro ⟨rfl, rfl⟩
      rw [entry] at still
      cases still
      exact other rfl
    rw [cancel_get, if_neg away]
    exact still
  listed := by
    intro other key' clock' found
    rcases cancel_clock found with ⟨old, away⟩
    refine (gone _).mpr ⟨keyed.listed other key' clock' old, fun same => ?_⟩
    rcases keyed.key entry with ⟨timer, here, kind, id⟩
    rcases keyed.key old with ⟨timer', here', kind', id'⟩
    rw [same, here] at here'
    cases here'
    exact away (kind.symm.trans kind') (id.symm.trans id')
  fires := by
    intro i member timer found
    rw [cancel_timers] at found
    rcases (gone i).mp member with ⟨before, other⟩
    rcases getElem?_switched (fun _ => false) found with ⟨old, here, _, _, _, _, same⟩
    have unchanged := same (Ne.symm other)
    subst unchanged
    exact keyed.fires i before old here
  active := by
    intro i timer found on
    rw [cancel_timers] at found
    rcases getElem?_switched (fun _ => false) found with ⟨old, here, _, _, _, off, same⟩
    by_cases own : clock.timer = i
    · rw [off own] at on
      cases on
    · have unchanged := same own
      subst unchanged
      exact (gone i).mpr ⟨keyed.active i old here on, Ne.symm own⟩
  own := by
    intro i runs timer found kind clock' found'
    rw [cancel_timers] at found
    rcases getElem?_switched (fun _ => false) found with ⟨old, here, plugins, _, id, _⟩
    rw [← id] at found'
    exact keyed.own i runs old here (plugins.trans kind) clock' (cancel_clock found').1

theorem Keyed.retain {s : HostState} {running : Option Nat} {live : List Nat} (keyed : Keyed s running live) :
    Keyed { s with retained := s.retained + 1 } running live where
  held := keyed.held.retain
  present := keyed.present
  ids i member timer found := by
    have entry := keyed.ids i member timer found
    cases kind : timer.plugin <;> rw [kind] at entry <;> exact entry
  listed plugin key clock found := keyed.listed plugin key clock (by cases plugin <;> exact found)
  fires := keyed.fires
  active := keyed.active
  own := keyed.own

theorem Keyed.congr {s : HostState} {running : Option Nat} {live live' : List Nat} (keyed : Keyed s running live)
    (same : ∀ i, i ∈ live' ↔ i ∈ live) : Keyed s running live' where
  held := keyed.held
  present i among := keyed.present i (among.imp_left (same i).mp)
  ids i member := keyed.ids i ((same i).mp member)
  listed plugin key clock found := (same _).mpr (keyed.listed plugin key clock found)
  fires i member := keyed.fires i ((same i).mp member)
  active i timer found on := (same i).mpr (keyed.active i timer found on)
  own := keyed.own

/-- The live timers that an id names are those of the clock under it. -/
theorem Keyed.named_iff {s : HostState} {running : Option Nat} {live : List Nat} (keyed : Keyed s running live)
    {i : Nat} (member : i ∈ live) (plugin : Plugin) (id : Int) :
    named s plugin id i = true ↔ ∃ clock, (s.clocks plugin).get? id = some clock ∧ clock.timer = i := by
  rcases keyed.present i (.inl member) with ⟨timer, found⟩
  simp only [named, found, Option.any_some, decide_eq_true_eq]
  constructor
  · rintro ⟨rfl, rfl⟩
    exact ⟨_, keyed.ids i member timer found, rfl⟩
  · rintro ⟨clock, entry, rfl⟩
    rcases keyed.key entry with ⟨timer', found', kind, id⟩
    rw [found] at found'
    cases found'
    exact ⟨kind, id⟩

theorem Keyed.clear {s : HostState} {running : Option Nat} {live : List Nat} (keyed : Keyed s running live)
    (plugin : Plugin) (id : Int) {live' : List Nat}
    (rest : ∀ i, i ∈ live' ↔ i ∈ live ∧ ∀ clock, (s.clocks plugin).get? id = some clock → clock.timer ≠ i) :
    Keyed (match (s.clocks plugin).get? id with
      | some clock => Runtime.cancel s plugin id clock
      | none => s) running live' := by
  cases entry : (s.clocks plugin).get? id with
  | none =>
    apply keyed.congr
    simpa [entry] using rest
  | some clock =>
    apply keyed.cancel entry
    intro i
    rw [rest i, entry]
    simp [eq_comm]

theorem Keyed.fire {m : Machine} {live : List Nat} (keyed : Keyed m.state m.running live) (i : Nat) :
    Keyed (fire m i).state (fire m i).running live := by
  have held := keyed.held.fire i
  unfold Runtime.fire at held ⊢
  split
  next timer idle found =>
    simp only [idle, found] at held
    split
    next on =>
      rw [if_pos on] at held
      have alive : i ∈ live := keyed.active i timer found on
      refine ⟨held, ?_, ?_, ?_, ?_, ?_, ?_⟩
      · intro j among
        have before : ∃ timer, m.state.timers[j]? = some timer := by
          rcases among with member | runs
          · exact keyed.present j (.inl member)
          · cases runs
            exact ⟨timer, found⟩
        rcases before with ⟨timer', found'⟩
        rw [List.getElem?_modify, found']
        split <;> exact ⟨_, rfl⟩
      · intro j member later get
        rcases getElem?_switched _ get with ⟨before, here, plugin, callback, id, _⟩
        rw [← callback, ← id, ← plugin]
        have entry := keyed.ids j member before here
        cases kind : before.plugin <;> rw [kind] at entry <;> exact entry
      · intro plugin key clock entry
        exact keyed.listed plugin key clock (by cases plugin <;> exact entry)
      · intro j member later get
        rcases getElem?_switched _ get with ⟨before, here, plugin, _, _, own, other⟩
        by_cases same : i = j
        · subst same
          cases kind : before.plugin with
          | interval => exact .inl (by simp [own rfl, kind])
          | timeout => exact .inr ⟨rfl, plugin.symm.trans kind⟩
        · rw [← other same]
          rcases keyed.fires j member before here with running | ⟨wrong, _⟩
          · exact .inl running
          · rw [idle] at wrong
            cases wrong
      · intro j later get on'
        rcases getElem?_switched _ get with ⟨before, here, _, _, _, _, other⟩
        by_cases same : i = j
        · exact same ▸ alive
        · rw [← other same] at on'
          exact keyed.active j before here on'
      · intro j runs later get kind clock entry
        cases runs
        rcases getElem?_switched _ get with ⟨before, here, plugin, _, id, _⟩
        have own := keyed.ids i alive before here
        rw [plugin, kind, id] at own
        rw [show m.state.clocks .timeout = m.state.timeouts from rfl] at own
        rw [show (m.state.timeouts).get? later.id = some clock from entry] at own
        cases own
        rfl
    next => exact keyed
  next => exact keyed

theorem Keyed.stop {s : HostState} {running : Option Nat} {live : List Nat} (keyed : Keyed s running live)
    (ended : ∀ i, running = some i → i ∈ live → ∀ timer, s.timers[i]? = some timer → timer.plugin = .interval) :
    Keyed s none live where
  held := keyed.held
  present i among := by
    rcases among with member | runs
    · exact keyed.present i (.inl member)
    · cases runs
  ids := keyed.ids
  listed := keyed.listed
  fires i member timer found := by
    rcases keyed.fires i member timer found with on | ⟨runs, kind⟩
    · exact .inl on
    · rw [ended i runs member timer found] at kind
      cases kind
  active := keyed.active
  own i runs := by cases runs

theorem parsed_id (id : Int) : parsed (some (.jsInt id)) = some id := rfl

theorem Keyed.finish {s : Plugins} {live : List Nat} (keyed : Keyed s.state s.machine.running live) :
    Keyed (finish s.machine false).state none (remaining s live (.finish false)) := by
  unfold Runtime.finish
  cases runs : s.machine.running with
  | none =>
    rw [runs] at keyed
    simp only [remaining, runs]
    exact keyed
  | some i =>
    rw [runs] at keyed
    rcases keyed.present i (.inr rfl) with ⟨timer, found⟩
    have found' : s.machine.state.timers[i]? = some timer := found
    simp only [found', remaining, runs, found, Option.any_some]
    cases kind : timer.plugin with
    | interval =>
      simp only [reduceCtorEq, decide_false, if_false]
      apply keyed.stop
      intro j same _ other there
      cases same
      rw [found] at there
      cases there
      exact kind
    | timeout =>
      simp only [decide_true, if_true]
      rw [clear_final, parsed_id]
      have rest (j : Nat) : j ∈ live.filter (· ≠ i) ↔
          j ∈ live ∧ ∀ clock, (s.state.clocks .timeout).get? timer.id = some clock → clock.timer ≠ j := by
        rw [List.mem_filter]
        constructor
        · rintro ⟨member, other⟩
          refine ⟨member, fun clock entry same => ?_⟩
          have mine := keyed.own i rfl timer found kind clock entry
          simp [← same, mine] at other
        · rintro ⟨member, other⟩
          refine ⟨member, ?_⟩
          by_contra same
          have same : j = i := by simpa using same
          subst same
          have entry := keyed.ids j member timer found
          rw [kind] at entry
          exact other _ entry rfl
      apply (keyed.clear .timeout timer.id rest).stop
      intro j same member
      cases same
      simp at member

theorem Keyed.step {w : Watched} (keyed : Keyed w.plugins.state w.plugins.machine.running w.live) {event : Event}
    (distinct : Distinct w event) :
    Keyed (watch w event).plugins.state (watch w event).plugins.machine.running (watch w event).live := by
  cases event with
  | create plugin time reading =>
    simp only [watch, Clocks.step, Plugins.withState, Plugins.state, remaining]
    rw [create_final]
    cases known : parsed time with
    | none => exact keyed.retain
    | some duration =>
      rcases distinct (by simp [known]) with ⟨free, readable, closed⟩
      apply keyed.added duration free readable
      intro i runs timer found kind same id
      apply closed same
      have found' : w.plugins.state.timers[i]? = some timer := found
      simp [closing, runs, found', kind, id]
  | clear plugin data =>
    simp only [watch, Clocks.step, Plugins.withState, Plugins.state, remaining]
    rw [clear_final]
    cases known : parsed data with
    | none => exact keyed
    | some id =>
      apply keyed.clear plugin id
      intro i
      rw [List.mem_filter]
      refine and_congr_right fun member => ?_
      have named := keyed.named_iff member plugin id
      simp only [Plugins.state] at named
      rw [Bool.not_eq_true', ← Bool.not_eq_true, named]
      simp only [not_exists, not_and]
      rfl
  | fire i => exact keyed.fire i
  | finish thrown =>
    cases distinct
    have ended : (Runtime.finish w.plugins.machine false).running = none := (finish_finished _ _).running
    have finished := keyed.finish
    rw [← ended] at finished
    exact finished
  | release => exact keyed

end Keys

section Runs

/-- In a run whose timers get keys of their own, clocks and live timers correspond
    in every state. -/
theorem timers_independent (events : List Event) (along : Run.Along watch Distinct {} events) :
    ∀ w ∈ Run.states watch {} events, Independent w := by
  have initial : Keyed ({} : Watched).plugins.state ({} : Watched).plugins.machine.running ({} : Watched).live := by
    refine ⟨initial_held, ?_, ?_, ?_, ?_, ?_, ?_⟩
    · rintro i (member | runs)
      · cases member
      · cases runs
    · intro i member
      cases member
    · intro plugin key clock found
      cases plugin <;> cases found
    · intro i member
      cases member
    · intro i timer found
      cases found
    · intro i runs
      cases runs
  have all := Run.invariant watch Distinct (fun w => Keyed w.plugins.state w.plugins.machine.running w.live)
    (fun w event keyed distinct => keyed.step distinct) events {} initial along
  exact fun w member => (all w member).independent

def twoTimeouts : List Event :=
  [.create .timeout none 5, .create .timeout none 6, .clear .timeout (some (.jsInt 6)), .fire 0, .finish false]

theorem timers_independent_two :
    Run.Along watch Distinct {} twoTimeouts ∧ Independent (Run.final watch {} twoTimeouts) := by
  have along : Run.Along watch Distinct {} twoTimeouts :=
    ⟨fun _ => by decide +kernel, fun _ => by decide +kernel, trivial, trivial, rfl, trivial⟩
  exact ⟨along, timers_independent twoTimeouts along _ (Run.final_mem_states _ _)⟩

/-- Of two timeouts created in the same microsecond the first loses its clock. -/
theorem same_microsecond_orphans :
    ∃ w ∈ Run.states watch {} [.create .timeout none 5, .create .timeout none 5], ¬ Independent w := by
  refine ⟨_, Run.final_mem_states _ _, fun independent => ?_⟩
  have orphan : ∀ plugin, ∀ entry ∈ ((Run.final watch {} [.create .timeout none 5,
      .create .timeout none 5]).plugins.state.clocks plugin).entries, entry.2.timer ≠ 0 := by
    intro plugin
    cases plugin <;> decide +kernel
  rcases independent.clock 0 (by decide +kernel) with ⟨timer, _, key, entry, _⟩
  exact orphan _ _ (LinkedMap.get?_eq_some.mp entry) rfl

end Runs

end Sano.Runtime.Clocks
