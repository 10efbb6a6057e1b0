import Sano.Base.Run
import Sano.Runtime.Host

namespace Sano.Runtime

section Machine

/-- The timers with the JS program that uses them. `running` is the timer whose
    callback is on the stack, `invoked` lists the calls of callbacks, and
    `registrations` gives for each timer the host function that JS called and
    the value of that call. An exception in the native callback ends the process. -/
structure Machine where
  state : HostState := {}
  running : Option Nat := none
  invoked : List Nat := []
  registrations : List (Host × JSValue) := []
  crashed : Bool := false

/-- A host call can come in a JS turn or from a running callback. A timer fires
    only between turns. A callback ends normally or with an exception. -/
inductive Event where
  | call (host : Host) (args : List JSValue) (reading : Int)
  | fire (timer : Nat)
  | finish (thrown : Bool)

variable (engine : Engine) (listeners : Listeners) (symbol : Host → String)

def callHost (m : Machine) (host : Host) (args : List JSValue) (reading : Int) : Machine :=
  match channel engine listeners symbol reading host args m.state with
  | .ok value t =>
    { m with
      state := t
      registrations :=
        if m.state.timers.length < t.timers.length then m.registrations ++ [(host, value)] else m.registrations }
  | .error _ t => { m with state := t, crashed := true }

def fire (m : Machine) (i : Nat) : Machine :=
  match m.running, m.state.timers[i]? with
  | none, some timer =>
    if timer.active then
      { m with
        state := { m.state with timers := m.state.timers.modify i fun timer =>
          { timer with active := timer.plugin = .interval } }
        running := some i
        invoked := m.invoked ++ [i] }
    else m
  | _, _ => m

/-- What follows `callback.call()`: a timeout clears its own id, unless the call threw. -/
def finish (m : Machine) (thrown : Bool) : Machine :=
  match m.running with
  | none => m
  | some i =>
    match m.state.timers[i]?, thrown with
    | some timer, false =>
      if timer.plugin = .timeout then
        { m with running := none, state := finalState (clear .timeout (some (.jsInt timer.id)) m.state) }
      else { m with running := none }
    | _, _ => { m with running := none }

def step (m : Machine) (event : Event) : Machine :=
  if m.crashed then m
  else
    match event with
    | .call host args reading => callHost engine listeners symbol m host args reading
    | .fire i => fire m i
    | .finish thrown => finish m thrown

def run : List Event → Machine := Run.final (step engine listeners symbol) {}

def Silenced (m : Machine) (i : Nat) : Prop :=
  ∀ events, (Run.final (step engine listeners symbol) m events).invoked.count i = m.invoked.count i

end Machine

section Progress

structure Later (s t : HostState) : Prop where
  longer : s.timers.length ≤ t.timers.length
  stopped : ∀ (i : Nat) (timer : Timer), s.timers[i]? = some timer → ∃ timer', t.timers[i]? = some timer' ∧
    (timer.active = false → timer'.active = false)

theorem Later.refl (s : HostState) : Later s s := ⟨Nat.le_refl _, fun _ timer found => ⟨timer, found, id⟩⟩

theorem Later.of_eq {s t : HostState} (same : t.timers = s.timers) : Later s t := by
  refine ⟨Nat.le_of_eq (by rw [same]), fun i timer found => ⟨timer, by rw [same, found], id⟩⟩

theorem Later.trans {s t u : HostState} (first : Later s t) (second : Later t u) : Later s u where
  longer := Nat.le_trans first.longer second.longer
  stopped i timer found := by
    obtain ⟨timer', found', kept⟩ := first.stopped i timer found
    obtain ⟨timer'', found'', kept'⟩ := second.stopped i timer' found'
    exact ⟨timer'', found'', fun stopped => kept' (kept stopped)⟩

theorem parseDuration_state (time : Option Handle) (s : HostState) :
    Ends (parseDuration time) s (fun _ t => t = s) fun _ t => t = s := by
  unfold parseDuration
  split
  · split <;> rfl
  · rfl
  · rfl

theorem cancel_timers (s : HostState) (plugin : Plugin) (key : Int) (clock : Clock) :
    (cancel s plugin key clock).timers = s.timers.modify clock.timer fun timer => { timer with active := false } := by
  cases plugin <;> rfl

theorem Later.modify {s t : HostState} {i : Nat} {change : Timer → Timer}
    (timers : t.timers = s.timers.modify i change) (stops : ∀ timer, timer.active = false → (change timer).active = false) :
    Later s t := by
  refine ⟨by simp [timers], fun j timer found => ?_⟩
  by_cases same : i = j
  · exact ⟨change timer, by simp [timers, same, found], stops timer⟩
  · exact ⟨timer, by simp [timers, same, found], id⟩

structure Called (s t : HostState) : Prop where
  later : Later s t
  most : t.timers.length ≤ s.timers.length + 1

theorem Called.of_eq {s t : HostState} (same : t.timers = s.timers) : Called s t :=
  ⟨.of_eq same, by rw [same]; exact Nat.le_succ _⟩

theorem createTimer_called (plugin : Plugin) (reading : Int) (time : Option Handle) (s : HostState) :
    Ends (createTimer plugin reading time) s (fun _ t => Called s t) fun _ t => Called s t := by
  apply Ends.bind
  show Ends _ { s with retained := s.retained + 1 } _ _
  apply Ends.bind
  apply (parseDuration_state time _).mono
  · rintro duration t rfl
    have added (timer : Timer) (clocks : LinkedMap Int Clock) : Called s
        (({ s with retained := s.retained + 1, timers := s.timers ++ [timer] } : HostState).withClocks clocks plugin) := by
      have timers : (({ s with retained := s.retained + 1, timers := s.timers ++ [timer] } : HostState).withClocks
          clocks plugin).timers = s.timers ++ [timer] := by cases plugin <;> rfl
      refine ⟨⟨by simp [timers], fun i old found => ⟨old, ?_, id⟩⟩, by simp [timers]⟩
      rw [timers, List.getElem?_append_left (List.getElem?_eq_some_iff.mp found).1, found]
    exact added _ _
  · rintro fault t rfl
    exact .of_eq rfl

theorem clear_stops (plugin : Plugin) (data : Option Handle) (s : HostState) :
    Ends (clear plugin data) s (fun _ t => Later s t ∧ t.timers.length = s.timers.length)
      fun _ t => Later s t ∧ t.timers.length = s.timers.length := by
  apply Ends.bind
  apply (parseDuration_state data s).mono
  · rintro id t rfl
    simp only [Ends]
    cases held : (t.clocks plugin).get? id with
    | none => exact ⟨.refl t, rfl⟩
    | some clock =>
      have timers := cancel_timers t plugin id clock
      exact ⟨.modify timers fun _ _ => rfl, by simp [timers]⟩
  · rintro fault t rfl
    exact ⟨.refl t, rfl⟩

theorem clear_called (plugin : Plugin) (data : Option Handle) (s : HostState) :
    Ends (clear plugin data) s (fun _ t => Called s t) fun _ t => Called s t := by
  apply (clear_stops plugin data s).mono
  · rintro _ t ⟨later, length⟩
    exact ⟨later, by omega⟩
  · rintro _ t ⟨later, length⟩
    exact ⟨later, by omega⟩

def Idle {α : Type} (call : Call α) : Prop :=
  ∀ s, Ends call s (fun _ t => t.timers = s.timers) fun _ t => t.timers = s.timers

theorem Idle.bind {α β : Type} {call : Call α} {next : α → Call β} (first : Idle call) (later : ∀ value, Idle (next value)) :
    Idle (call >>= next) := by
  intro s
  apply Ends.bind
  apply (first s).mono
  · intro value t same
    apply (later value t).mono
    · exact fun _ u same' => same'.trans same
    · exact fun _ u same' => same'.trans same
  · exact fun _ t same => same

theorem Idle.pure {α : Type} (value : α) : Idle (Pure.pure value) := fun _ => rfl

theorem Idle.throw {α : Type} (fault : Fault) : Idle (MonadExcept.throw fault : Call α) := fun _ => rfl

theorem decodeText_idle (text : Option JSString) : Idle (decodeText text) := by
  unfold decodeText
  split
  · exact .throw _
  · split
    · exact .pure _
    · exact .throw _

theorem println_idle (engine : Engine) (type : JSString) (list : Nat) : Idle (println engine type list) := by
  unfold println arrayLength
  refine .bind ?_ fun length => ?_
  · split
    · exact .pure _
    · exact .throw _
  · split
    · exact .bind (decodeText_idle _) fun _ => .bind (decodeText_idle _) fun _ => .pure _
    · exact .pure _

theorem bridgeChannel_idle (listeners : Listeners) (method : JSString) (args callback : Option Handle) :
    Idle (bridgeChannel listeners method args callback) := by
  unfold bridgeChannel
  refine .bind (decodeText_idle _) fun name => ?_
  split
  · cases callback with
    | none => exact .throw _
    | some handle => cases handle <;> exact fun _ => rfl
  · dsimp only
    split <;> exact .pure _

theorem checkArgs_idle (params : List Param × List Param) (args : List Handle) : Idle (checkArgs params args) := by
  unfold checkArgs
  split
  · exact .throw _
  · split
    · exact .pure _
    · exact .throw _

theorem called_then {α β : Type} {call : Call α} {s : HostState} (called : Ends call s (fun _ t => Called s t) fun _ t => Called s t)
    (next : α → β) : Ends (call >>= fun value => pure (next value)) s (fun _ t => Called s t) fun _ t => Called s t := by
  apply Ends.bind
  apply called.mono
  · exact fun _ _ done => done
  · exact fun _ _ done => done

theorem Idle.called {α : Type} {call : Call α} (idle : Idle call) (s : HostState) :
    Ends call s (fun _ t => Called s t) fun _ t => Called s t := by
  apply (idle s).mono
  · exact fun _ _ same => .of_eq same
  · exact fun _ _ same => .of_eq same

variable (engine : Engine) (listeners : Listeners) (reading : Int)

theorem body_called (host : Host) (args : List Handle) (s : HostState) :
    Ends (body engine listeners reading host args) s (fun _ t => Called s t) fun _ t => Called s t := by
  unfold body
  split
  · exact (Idle.bind (println_idle _ _ _) fun _ => .pure _).called s
  · exact called_then (createTimer_called _ _ _ s) some
  · exact called_then (clear_called _ _ s) fun _ => none
  · exact called_then (createTimer_called _ _ _ s) some
  · exact called_then (clear_called _ _ s) fun _ => none
  · exact (bridgeChannel_idle _ _ _ _).called s
  · exact (Idle.throw _).called s

theorem channel_called (symbol : Host → String) (host : Host) (args : List JSValue) (s : HostState) :
    Ends (channel engine listeners symbol reading host args) s (fun value t => value = .undefined ∧ Called s t)
      fun _ t => Called s t := by
  unfold channel emit apply
  rw [observer_get]
  apply Ends.bind
  apply Ends.bind
  apply (checkArgs_idle _ _ s).mono
  · intro _ t same
    have start : Called s t := .of_eq same
    apply Ends.bind
    apply (body_called engine listeners reading _ _ t).mono
    · intro _ u called
      exact ⟨rfl, start.later.trans called.later, by rw [← same]; exact called.most⟩
    · intro _ u called
      exact ⟨start.later.trans called.later, by rw [← same]; exact called.most⟩
  · exact fun _ t same => .of_eq same

end Progress

section Cancellation

variable (engine : Engine) (listeners : Listeners) (symbol : Host → String)

def Stopped (m : Machine) (i : Nat) : Prop := ∃ timer, m.state.timers[i]? = some timer ∧ timer.active = false

theorem Stopped.later {m : Machine} {i : Nat} (stopped : Stopped m i) {t : HostState} (later : Later m.state t) :
    ∃ timer, t.timers[i]? = some timer ∧ timer.active = false := by
  obtain ⟨timer, found, idle⟩ := stopped
  obtain ⟨timer', found', kept⟩ := later.stopped i timer found
  exact ⟨timer', found', kept idle⟩

structure Finished (m n : Machine) (thrown : Bool) : Prop where
  later : Later m.state n.state
  length : n.state.timers.length = m.state.timers.length
  thrown : thrown = true → n.state = m.state
  running : n.running = none
  invoked : n.invoked = m.invoked
  registrations : n.registrations = m.registrations
  crashed : n.crashed = m.crashed

theorem finish_finished (m : Machine) (thrown : Bool) : Finished m (finish m thrown) thrown := by
  have still (n : Machine) (state : n.state = m.state) (running : n.running = none) (invoked : n.invoked = m.invoked)
      (registrations : n.registrations = m.registrations) (crashed : n.crashed = m.crashed) : Finished m n thrown :=
    ⟨.of_eq (by rw [state]), by rw [state], fun _ => state, running, invoked, registrations, crashed⟩
  unfold finish
  split
  · rename_i free
    exact still m rfl free rfl rfl rfl
  · split
    · rename_i timer _
      split
      · have stops := Ends.final (clear_stops .timeout (some (.jsInt timer.id)) m.state)
        exact ⟨stops.1, stops.2, by simp, rfl, rfl, rfl, rfl⟩
      · exact still _ rfl rfl rfl rfl rfl
    · exact still _ rfl rfl rfl rfl rfl

theorem Stopped.step {m : Machine} {i : Nat} (stopped : Stopped m i) (event : Event) :
    Stopped (step engine listeners symbol m event) i ∧
      (step engine listeners symbol m event).invoked.count i = m.invoked.count i := by
  unfold Runtime.step
  split
  · exact ⟨stopped, rfl⟩
  · cases event with
    | call host args reading =>
      have called := channel_called engine listeners reading symbol host args m.state
      simp only [callHost]
      cases ended : channel engine listeners symbol reading host args m.state with
      | ok value t => exact ⟨stopped.later (called.ok ended).2.later, rfl⟩
      | error fault t => exact ⟨stopped.later (called.error ended).later, rfl⟩
    | finish thrown =>
      have finished := finish_finished m thrown
      exact ⟨stopped.later finished.later, by rw [finished.invoked]⟩
    | fire j =>
      simp only [fire]
      split
      · rename_i timer free found
        split
        · rename_i active
          obtain ⟨timer', found', idle⟩ := stopped
          have other : j ≠ i := by
            rintro rfl
            cases Option.some.inj (found.symm.trans found')
            rw [idle] at active
            cases active
          exact ⟨⟨timer', by simp [other, found'], idle⟩, by simp [List.count_append, other]⟩
        · exact ⟨stopped, rfl⟩
      · exact ⟨stopped, rfl⟩

theorem Stopped.silenced {m : Machine} {i : Nat} (stopped : Stopped m i) : Silenced engine listeners symbol m i := by
  intro events
  induction events generalizing m with
  | nil => rfl
  | cons event rest ih =>
    obtain ⟨next, same⟩ := stopped.step engine listeners symbol event
    exact (ih next).trans same

theorem crashed_silenced {m : Machine} (crashed : m.crashed = true) (i : Nat) : Silenced engine listeners symbol m i := by
  intro events
  induction events with
  | nil => rfl
  | cons event rest ih =>
    have still : step engine listeners symbol m event = m := by simp [step, crashed]
    rw [Run.final, List.foldl_cons, still]
    exact ih

theorem active_fires {m : Machine} {i : Nat} {timer : Timer} (alive : m.crashed = false)
    (found : m.state.timers[i]? = some timer) (active : timer.active = true) :
    ¬ Silenced engine listeners symbol m i := by
  intro silenced
  have finished := finish_finished m true
  have idle : step engine listeners symbol m (.finish true) = finish m true := by simp [step, alive]
  have once := silenced [.finish true, .fire i]
  simp only [Run.final, List.foldl_cons, List.foldl_nil, idle] at once
  have found' : (finish m true).state.timers[i]? = some timer := by rw [finished.thrown rfl, found]
  simp [step, finished.crashed, alive, fire, finished.running, found', active, finished.invoked] at once

def Plugin.createHost : Plugin → Host
  | .interval => .setInterval
  | .timeout => .setTimeout

def Plugin.clearHost : Plugin → Host
  | .interval => .clearInterval
  | .timeout => .clearTimeout

def clearTarget (symbol : Host → String) (plugin : Plugin) : Option Plugin :=
  match resolve symbol plugin.clearHost with
  | .clearInterval => some .interval
  | .clearTimeout => some .timeout
  | _ => none

structure Recorded (m : Machine) : Prop where
  length : m.crashed = false → m.registrations.length = m.state.timers.length
  values : ∀ entry ∈ m.registrations, entry.2 = .undefined

theorem Recorded.step {m : Machine} (recorded : Recorded m) (event : Event) :
    Recorded (step engine listeners symbol m event) := by
  unfold Runtime.step
  split
  · exact recorded
  · rename_i alive
    have alive : m.crashed = false := by simpa using alive
    cases event with
    | call host args reading =>
      have called := channel_called engine listeners reading symbol host args m.state
      simp only [callHost]
      cases ended : channel engine listeners symbol reading host args m.state with
      | ok value t =>
        obtain ⟨rfl, later, most⟩ := called.ok ended
        have longer := later.longer
        have before := recorded.length alive
        by_cases added : m.state.timers.length < t.timers.length
        · simp only [added, if_true]
          refine ⟨fun _ => ?_, fun entry member => ?_⟩
          · simp only [List.length_append, List.length_singleton]
            omega
          · rcases List.mem_append.mp member with old | new
            · exact recorded.values entry old
            · simp only [List.mem_singleton] at new
              rw [new]
        · simp only [added, if_false]
          exact ⟨fun _ => by simp only; omega, recorded.values⟩
      | error fault t => exact ⟨by simp, recorded.values⟩
    | finish thrown =>
      have finished := finish_finished m thrown
      refine ⟨fun _ => ?_, by rw [finished.registrations]; exact recorded.values⟩
      rw [finished.registrations, finished.length]
      exact recorded.length alive
    | fire j =>
      simp only [fire]
      split
      · split
        · exact ⟨fun _ => by simpa using recorded.length alive, recorded.values⟩
        · exact recorded
      · exact recorded

theorem run_recorded (events : List Event) : Recorded (run engine listeners symbol events) :=
  Run.final_always (step engine listeners symbol) Recorded
    (fun _ event recorded => recorded.step engine listeners symbol event) events {} ⟨fun _ => rfl, by simp⟩

theorem clear_undefined (plugin : Plugin) (s : HostState) :
    clear plugin (some .jsUndefined) s = .ok () (match (s.clocks plugin).get? 0 with
      | some clock => cancel s plugin 0 clock
      | none => s) := by
  change (match (s.clocks plugin).get? 0 with
    | some clock => EStateM.Result.ok () (cancel s plugin 0 clock)
    | none => EStateM.Result.ok () s) = _
  cases (s.clocks plugin).get? 0 <;> rfl

/-- `clearTimeout(undefined)` clears the id 0. -/
theorem channel_clear {plugin target : Plugin} (reaches : clearTarget symbol plugin = some target) (reading : Int)
    (s : HostState) : channel engine listeners symbol reading plugin.clearHost [.undefined] s =
      .ok .undefined (match (s.clocks target).get? 0 with
        | some clock => cancel s target 0 clock
        | none => s) := by
  have runs : apply engine listeners reading target.clearHost [.jsUndefined] s =
      .ok .jsUndefined (match (s.clocks target).get? 0 with
        | some clock => cancel s target 0 clock
        | none => s) := by
    have cleared := clear_undefined target s
    cases target <;>
      simp [apply, checkArgs, Plugin.clearHost, Host.params, Param.admits, body, Bind.bind, EStateM.bind, cleared,
        pure, EStateM.pure]
  have host : resolve symbol plugin.clearHost = target.clearHost := by
    unfold clearTarget at reaches
    cases found : resolve symbol plugin.clearHost <;> simp only [found, Option.some.injEq, reduceCtorEq] at reaches <;>
      rw [← reaches] <;> rfl
  simp only [channel, emit, observer_get, host, Bind.bind, EStateM.bind, List.map_cons, List.map_nil, fromJSValue, runs]
  rfl

theorem channel_elsewhere {plugin : Plugin} (reaches : clearTarget symbol plugin = none) (reading : Int)
    (s : HostState) : ∃ fault t, channel engine listeners symbol reading plugin.clearHost [.undefined] s =
      .error fault t := by
  have rejected : accepts engine (resolve symbol plugin.clearHost) [.undefined] = false := by
    unfold clearTarget at reaches
    cases found : resolve symbol plugin.clearHost <;> simp only [found, reduceCtorEq] at reaches <;> rfl
  cases ended : channel engine listeners symbol reading plugin.clearHost [.undefined] s with
  | error fault t => exact ⟨fault, t, rfl⟩
  | ok value t =>
    have value := ((channel_called engine listeners reading symbol _ _ s).ok ended).1
    have accepted := (channel_completes_iff engine listeners reading symbol plugin.clearHost [.undefined] s).mp
      ⟨t, by rw [ended, value]⟩
    rw [rejected] at accepted
    cases accepted

/-- A registration is silenced by clearing it with the value of its own call
    exactly when its timer has stopped already or its clock has the key 0: the
    value is undefined, which reads as the id 0. -/
theorem own_clear_silences_iff (events : List Event) (i : Nat) (plugin : Plugin) (x : JSValue) (reading : Int)
    (alive : (run engine listeners symbol events).crashed = false)
    (registered : (run engine listeners symbol events).registrations[i]? = some (plugin.createHost, x)) :
    Silenced engine listeners symbol
        (step engine listeners symbol (run engine listeners symbol events) (.call plugin.clearHost [x] reading)) i ↔
      Stopped (run engine listeners symbol events) i ∨ ∀ target, clearTarget symbol plugin = some target →
        ∃ clock, ((run engine listeners symbol events).state.clocks target).get? 0 = some clock ∧ clock.timer = i := by
  have recorded := run_recorded engine listeners symbol events
  generalize run engine listeners symbol events = m at *
  have value : x = .undefined := recorded.values _ (List.mem_of_getElem? registered)
  have bound : i < m.state.timers.length := by
    rw [← recorded.length alive]
    exact (List.getElem?_eq_some_iff.mp registered).1
  obtain ⟨timer, found⟩ : ∃ timer, m.state.timers[i]? = some timer := ⟨_, List.getElem?_eq_getElem bound⟩
  subst value
  by_cases stopped : Stopped m i
  · have after := (stopped.step engine listeners symbol (.call plugin.clearHost [.undefined] reading)).1
    exact ⟨fun _ => .inl stopped, fun _ => after.silenced engine listeners symbol⟩
  · have active : timer.active = true := by
      cases known : timer.active with
      | true => rfl
      | false => exact absurd ⟨timer, found, known⟩ stopped
    simp only [stopped, false_or]
    cases reaches : clearTarget symbol plugin with
    | none =>
      obtain ⟨fault, t, ended⟩ := channel_elsewhere engine listeners symbol reaches reading m.state
      have crashed : (step engine listeners symbol m (.call plugin.clearHost [.undefined] reading)).crashed = true := by
        simp [step, alive, callHost, ended]
      simpa using crashed_silenced engine listeners symbol crashed i
    | some target =>
      have ended := channel_clear engine listeners symbol reaches reading m.state
      simp only [Option.some.injEq, forall_eq']
      cases held : (m.state.clocks target).get? 0 with
      | none =>
        simp only [held] at ended
        have same : (step engine listeners symbol m (.call plugin.clearHost [.undefined] reading)).state = m.state := by
          simp [step, alive, callHost, ended]
        have alive' : (step engine listeners symbol m (.call plugin.clearHost [.undefined] reading)).crashed = false := by
          simp [step, alive, callHost, ended]
        refine ⟨fun silenced => ?_, fun wrong => ?_⟩
        · exact absurd silenced (active_fires engine listeners symbol alive' (by rw [same, found]) active)
        · obtain ⟨_, none, _⟩ := wrong
          cases none
      | some clock =>
        simp only [held] at ended
        have timers := cancel_timers m.state target 0 clock
        have state : (step engine listeners symbol m (.call plugin.clearHost [.undefined] reading)).state =
            cancel m.state target 0 clock := by simp [step, alive, callHost, ended]
        have alive' : (step engine listeners symbol m (.call plugin.clearHost [.undefined] reading)).crashed = false := by
          simp [step, alive, callHost, ended]
        by_cases own : clock.timer = i
        · refine ⟨fun _ => ⟨clock, rfl, own⟩, fun _ => Stopped.silenced engine listeners symbol ?_⟩
          exact ⟨{ timer with active := false }, by rw [state, timers]; simp [own, found], rfl⟩
        · refine ⟨fun silenced => ?_, fun wrong => ?_⟩
          · have still : (step engine listeners symbol m (.call plugin.clearHost [.undefined] reading)).state.timers[i]? =
                some timer := by rw [state, timers]; simp [own, found]
            exact absurd silenced (active_fires engine listeners symbol alive' still active)
          · obtain ⟨other, same, here⟩ := wrong
            cases same
            exact absurd here own

def oneTimeout (reading : Int) : List Event := [.call .setTimeout [.object .function 0, .int 0] reading]

theorem own_clear_silences_zero : ∃ x,
    (run plainEngine (fun _ => none) plainSymbol (oneTimeout 0)).registrations[0]? = some (.setTimeout, x) ∧
    Silenced plainEngine (fun _ => none) plainSymbol (step plainEngine (fun _ => none) plainSymbol
      (run plainEngine (fun _ => none) plainSymbol (oneTimeout 0)) (.call .clearTimeout [x] 1)) 0 := by
  have listed : (run plainEngine (fun _ => none) plainSymbol (oneTimeout 0)).registrations[0]?.map Prod.fst =
      some .setTimeout := by decide +kernel
  obtain ⟨⟨host, x⟩, registered, rfl⟩ := Option.map_eq_some_iff.mp listed
  refine ⟨x, registered, (own_clear_silences_iff plainEngine (fun _ => none) plainSymbol (oneTimeout 0) 0 .timeout x 1
    (by decide +kernel) registered).mpr (.inr fun target reaches => ?_)⟩
  have own : clearTarget plainSymbol .timeout = some .timeout := by decide +kernel
  cases Option.some.inj (own.symm.trans reaches)
  exact ⟨⟨0, 0⟩, by decide +kernel, rfl⟩

/-- A timeout that JS clears with the value of its own call still fires. -/
theorem cleared_timeout_fires : ∃ x,
    (run plainEngine (fun _ => none) plainSymbol (oneTimeout 1657800000000000)).crashed = false ∧
    (run plainEngine (fun _ => none) plainSymbol (oneTimeout 1657800000000000)).registrations[0]? =
      some (.setTimeout, x) ∧
    ¬ Silenced plainEngine (fun _ => none) plainSymbol (step plainEngine (fun _ => none) plainSymbol
      (run plainEngine (fun _ => none) plainSymbol (oneTimeout 1657800000000000)) (.call .clearTimeout [x] 1)) 0 := by
  have listed : (run plainEngine (fun _ => none) plainSymbol
      (oneTimeout 1657800000000000)).registrations[0]?.map Prod.fst = some .setTimeout := by decide +kernel
  obtain ⟨⟨host, x⟩, registered, rfl⟩ := Option.map_eq_some_iff.mp listed
  have value : x = .undefined := (run_recorded plainEngine (fun _ => none) plainSymbol
    (oneTimeout 1657800000000000)).values _ (List.mem_of_getElem? registered)
  subst value
  refine ⟨.undefined, by decide +kernel, registered, fun silenced => ?_⟩
  exact absurd (silenced [.fire 0]) (by decide +kernel)

end Cancellation

end Sano.Runtime
