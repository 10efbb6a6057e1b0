import Mathlib.Data.List.Nodup
import Sano.Base.Run

namespace Sano.Framework.Instance

section Model

structure Suspended where
  call : Nat
  plugins : Nat
deriving DecidableEq

structure Loading where
  call : Nat
  found : Option Nat
  left : Nat
deriving DecidableEq

structure Failure where
  found : Option Nat
  leaves : Option Nat
deriving DecidableEq

structure State where
  started : Nat := 0
  suspended : List Suspended := []
  loading : Option Loading := none
  current : Option Nat := none
  assigned : Nat := 0
  runtimes : Nat := 0
  bridges : Nat := 0
  failures : List Failure := []
deriving DecidableEq

inductive Progress where
  | navigateThrows
  | runtimeThrows
  | assigns
deriving DecidableEq

/-- `initInstance` may be called at any time, also by a plugin. Only one call runs at
    a time otherwise: none goes on while another one loads its plugins. -/
inductive Event where
  | initInstance (plugins : Nat)
  | resolveThrows (call : Nat)
  | resolved (call : Nat) (progress : Progress)
  | onCreate (throws : Bool)
deriving DecidableEq

def fail (s : State) (found : Option Nat) : State := { s with failures := s.failures ++ [⟨found, s.current⟩] }

def initInstance (asserts : Bool) (s : State) (plugins : Nat) : State :=
  if asserts = true ∧ s.current ≠ none then fail { s with started := s.started + 1 } s.current
  else { s with started := s.started + 1, suspended := s.suspended ++ [⟨s.started, plugins⟩] }

def awaiting (s : State) (call : Nat) : Option Suspended :=
  match s.loading with
  | some _ => none
  | none => s.suspended.find? fun suspended => suspended.call = call

def goOn (s : State) (suspended : Suspended) : Progress → State
  | .navigateThrows => fail s s.current
  | .runtimeThrows => fail { s with bridges := s.bridges + 1 } s.current
  | .assigns =>
    { s with
      bridges := s.bridges + 1
      runtimes := s.runtimes + 1
      current := some suspended.call
      assigned := s.assigned + 1
      -- the navigator and the bridge are loaded after the plugins of the call
      loading := some ⟨suspended.call, s.current, suspended.plugins + 1⟩ }

def load (s : State) (loading : Loading) (throws : Bool) : State :=
  if throws then fail { s with loading := none } loading.found
  else
    match loading.left with
    | 0 => { s with loading := none }
    | left + 1 => { s with loading := some { loading with left } }

def step (asserts : Bool) (s : State) : Event → State
  | .initInstance plugins => initInstance asserts s plugins
  | .resolveThrows call =>
    match awaiting s call with
    | some suspended => fail { s with suspended := s.suspended.erase suspended } s.current
    | none => s
  | .resolved call progress =>
    match awaiting s call with
    | some suspended => goOn { s with suspended := s.suspended.erase suspended } suspended progress
    | none => s
  | .onCreate throws =>
    match s.loading with
    | some loading => load s loading throws
    | none => s

end Model

section Single

structure Single (s : State) : Prop where
  assigned : s.assigned ≤ 1
  runtimes : s.runtimes ≤ 1
  bridges : s.bridges ≤ 1
  failures : ∀ failure ∈ s.failures, failure.leaves = failure.found

def Alone (s : State) : Event → Prop
  | .resolved call progress => awaiting s call ≠ none → progress ≠ .navigateThrows → s.bridges = 0
  | .onCreate throws => s.loading ≠ none → throws = false
  | _ => True

structure Ordered (s : State) : Prop where
  assigned : s.assigned ≤ s.runtimes
  runtimes : s.runtimes ≤ s.bridges
  current : ∀ call, s.current = some call → call < s.started
  suspended : ∀ suspended ∈ s.suspended, suspended.call < s.started ∧ s.current ≠ some suspended.call
  nodup : (s.suspended.map Suspended.call).Nodup
  loading : ∀ loading, s.loading = some loading → s.current = some loading.call ∧ loading.found ≠ some loading.call

theorem awaiting_some {s : State} {call : Nat} {suspended : Suspended} (waits : awaiting s call = some suspended) :
    s.loading = none ∧ suspended ∈ s.suspended := by
  unfold awaiting at waits
  split at waits
  · cases waits
  next idle => exact ⟨idle, List.mem_of_find?_eq_some waits⟩

theorem Ordered.fail {s : State} (ordered : Ordered s) (found : Option Nat) : Ordered (fail s found) :=
  ⟨ordered.assigned, ordered.runtimes, ordered.current, ordered.suspended, ordered.nodup, ordered.loading⟩

theorem Ordered.initInstance {s : State} (ordered : Ordered s) (asserts : Bool) (plugins : Nat) :
    Ordered (initInstance asserts s plugins) := by
  have later (call : Nat) (made : s.current = some call) : call < s.started + 1 :=
    Nat.lt_succ_of_lt (ordered.current call made)
  have older (suspended : Suspended) (member : suspended ∈ s.suspended) :
      suspended.call < s.started + 1 ∧ s.current ≠ some suspended.call :=
    ⟨Nat.lt_succ_of_lt (ordered.suspended _ member).1, (ordered.suspended _ member).2⟩
  unfold Instance.initInstance
  split
  · have called : Ordered { s with started := s.started + 1 } :=
      ⟨ordered.assigned, ordered.runtimes, later, older, ordered.nodup, ordered.loading⟩
    exact called.fail _
  · refine ⟨ordered.assigned, ordered.runtimes, later, ?_, ?_, ordered.loading⟩
    · intro suspended member
      rcases List.mem_append.mp member with old | new
      · exact older suspended old
      · rw [List.mem_singleton.mp new]
        refine ⟨Nat.lt_succ_self _, fun made => ?_⟩
        exact absurd (ordered.current _ made) (Nat.lt_irrefl _)
    · rw [List.map_append, List.nodup_append]
      refine ⟨ordered.nodup, by simp, ?_⟩
      intro call member other new
      rcases List.mem_map.mp member with ⟨suspended, there, rfl⟩
      have below := (ordered.suspended suspended there).1
      have same : other = s.started := by simpa using new
      omega

theorem Ordered.take {s : State} (ordered : Ordered s) {suspended : Suspended} (member : suspended ∈ s.suspended) :
    Ordered { s with suspended := s.suspended.erase suspended } ∧
      ∀ other ∈ s.suspended.erase suspended, other.call ≠ suspended.call := by
  constructor
  · refine ⟨ordered.assigned, ordered.runtimes, ordered.current, ?_, ?_, ordered.loading⟩
    · exact fun other there => ordered.suspended other (List.mem_of_mem_erase there)
    · exact ordered.nodup.sublist ((List.erase_sublist).map _)
  · intro other there same
    have distinct : other = suspended :=
      List.inj_on_of_nodup_map ordered.nodup (List.mem_of_mem_erase there) member same
    subst distinct
    exact (List.Nodup.of_map _ ordered.nodup).not_mem_erase there

theorem Ordered.goOn {s : State} (ordered : Ordered s) {suspended : Suspended} (started : suspended.call < s.started)
    (new : s.current ≠ some suspended.call) (others : ∀ other ∈ s.suspended, other.call ≠ suspended.call)
    (progress : Progress) : Ordered (goOn s suspended progress) := by
  cases progress with
  | navigateThrows => exact ordered.fail _
  | runtimeThrows =>
    have bridged : Ordered { s with bridges := s.bridges + 1 } :=
      ⟨ordered.assigned, Nat.le_succ_of_le ordered.runtimes, ordered.current, ordered.suspended, ordered.nodup,
        ordered.loading⟩
    exact bridged.fail _
  | assigns =>
    refine ⟨Nat.succ_le_succ ordered.assigned, Nat.succ_le_succ ordered.runtimes, ?_, ?_, ordered.nodup, ?_⟩
    · rintro call made
      cases made
      exact started
    · intro other member
      refine ⟨(ordered.suspended other member).1, fun made => ?_⟩
      exact others other member (Option.some.inj made).symm
    · intro loading there
      cases there
      exact ⟨rfl, new⟩

theorem Ordered.load {s : State} (ordered : Ordered s) {loading : Loading} (there : s.loading = some loading)
    (throws : Bool) : Ordered (load s loading throws) := by
  have idle : Ordered { s with loading := none } :=
    ⟨ordered.assigned, ordered.runtimes, ordered.current, ordered.suspended, ordered.nodup, fun _ none => by cases none⟩
  unfold Instance.load
  split
  · exact idle.fail _
  · split
    · exact idle
    · refine ⟨ordered.assigned, ordered.runtimes, ordered.current, ordered.suspended, ordered.nodup, ?_⟩
      intro next same
      cases same
      exact ordered.loading loading there

theorem Ordered.step {s : State} (ordered : Ordered s) (asserts : Bool) (event : Event) : Ordered (step asserts s event) := by
  cases event with
  | initInstance plugins => exact ordered.initInstance asserts plugins
  | resolveThrows call =>
    simp only [Instance.step]
    split
    next suspended waits => exact (ordered.take (awaiting_some waits).2).1.fail _
    next => exact ordered
  | resolved call progress =>
    simp only [Instance.step]
    split
    next suspended waits =>
      have member := (awaiting_some waits).2
      rcases ordered.take member with ⟨rest, others⟩
      exact rest.goOn (ordered.suspended _ member).1 (ordered.suspended _ member).2 others progress
    next => exact ordered
  | onCreate throws =>
    simp only [Instance.step]
    split
    next loading there => exact ordered.load there throws
    next => exact ordered

theorem single_fail_iff (s : State) (found : Option Nat) : Single (fail s found) ↔ Single s ∧ s.current = found := by
  constructor
  · intro single
    refine ⟨⟨single.assigned, single.runtimes, single.bridges, fun failure member => ?_⟩, ?_⟩
    · exact single.failures failure (List.mem_append_left _ member)
    · exact single.failures ⟨found, s.current⟩ (List.mem_append_right _ (List.mem_singleton_self _))
  · rintro ⟨single, same⟩
    refine ⟨single.assigned, single.runtimes, single.bridges, fun failure member => ?_⟩
    rcases List.mem_append.mp member with old | new
    · exact single.failures failure old
    · rw [List.mem_singleton.mp new]
      exact same

theorem single_goOn_iff {s : State} (ordered : Ordered s) (single : Single s) (suspended : Suspended) (progress : Progress) :
    Single (goOn s suspended progress) ↔ (progress ≠ .navigateThrows → s.bridges = 0) := by
  have assigned := ordered.assigned
  have runtimes := ordered.runtimes
  cases progress with
  | navigateThrows => simpa [goOn, single_fail_iff] using single
  | runtimeThrows =>
    simp only [goOn, single_fail_iff, and_true, ne_eq, reduceCtorEq, not_false_eq_true, true_imp_iff]
    constructor
    · intro next
      have := next.bridges
      simp only at this
      omega
    · intro first
      exact ⟨single.assigned, single.runtimes, by simp [first], single.failures⟩
  | assigns =>
    simp only [ne_eq, reduceCtorEq, not_false_eq_true, true_imp_iff]
    constructor
    · intro next
      have := next.bridges
      simp only [goOn] at this
      omega
    · intro first
      refine ⟨?_, ?_, ?_, single.failures⟩ <;> simp only [goOn] <;> omega

theorem single_load_iff {s : State} (ordered : Ordered s) (single : Single s) {loading : Loading}
    (there : s.loading = some loading) (throws : Bool) : Single (load s loading throws) ↔ throws = false := by
  have idle : Single { s with loading := none } :=
    ⟨single.assigned, single.runtimes, single.bridges, single.failures⟩
  cases throws with
  | true =>
    -- the instance is the one that the failing call has just made
    rcases ordered.loading loading there with ⟨made, new⟩
    simp only [load, if_true, single_fail_iff, Bool.true_eq_false, iff_false]
    exact fun both => new (both.2.symm.trans made)
  | false =>
    simp only [load, Bool.false_eq_true, if_false, iff_true]
    split
    · exact idle
    · exact ⟨single.assigned, single.runtimes, single.bridges, single.failures⟩

theorem single_step_iff {s : State} (ordered : Ordered s) (single : Single s) (asserts : Bool) (event : Event) :
    Single (step asserts s event) ↔ Alone s event := by
  cases event with
  | initInstance plugins =>
    simp only [step, initInstance, Alone, iff_true]
    split
    · exact (single_fail_iff _ _).mpr ⟨⟨single.assigned, single.runtimes, single.bridges, single.failures⟩, rfl⟩
    · exact ⟨single.assigned, single.runtimes, single.bridges, single.failures⟩
  | resolveThrows call =>
    simp only [step, Alone, iff_true]
    split
    · exact (single_fail_iff _ _).mpr ⟨⟨single.assigned, single.runtimes, single.bridges, single.failures⟩, rfl⟩
    · exact single
  | resolved call progress =>
    simp only [step, Alone]
    split
    next suspended waits =>
      have rest := (ordered.take (awaiting_some waits).2).1
      rw [single_goOn_iff rest ⟨single.assigned, single.runtimes, single.bridges, single.failures⟩]
      simp [waits]
    next none => simp [none, single]
  | onCreate throws =>
    simp only [step, Alone]
    split
    next loading there =>
      rw [single_load_iff ordered single there]
      simp [there]
    next none => simp [none, single]

/-- All along a run there is one instance, one runtime and one bridge, and no failed
    call changes the instance, exactly when no call gets past the navigator after
    another one and no plugin throws. -/
theorem init_single_iff (asserts : Bool) (events : List Event) :
    (∀ s ∈ Run.states (step asserts) {} events, Single s) ↔ Run.Along (step asserts) Alone {} events := by
  have initial : Ordered {} ∧ Single {} := by
    refine ⟨⟨?_, ?_, ?_, ?_, ?_, ?_⟩, ⟨?_, ?_, ?_, ?_⟩⟩ <;> simp
  have always : ∀ s ∈ Run.states (step asserts) {} events, Ordered s :=
    Run.always (step asserts) Ordered (fun _ event ordered => ordered.step asserts event) events {} initial.1
  have stepwise (s : State) (event : Event) (now : Ordered s ∧ Single s) :
      (Ordered (step asserts s event) ∧ Single (step asserts s event)) ↔ Alone s event := by
    rw [single_step_iff now.1 now.2]
    exact and_iff_right (now.1.step asserts event)
  rw [← Run.all_states_iff stepwise events {} initial]
  constructor
  · exact fun single s member => ⟨always s member, single s member⟩
  · exact fun both s member => (both s member).2

/-- Two calls overlap: both pass the assertion, and both make an instance. -/
theorem overlapping_calls_both_assign :
    ¬ ∀ s ∈ Run.states (step true) {}
        [.initInstance 0, .initInstance 0, .resolved 0 .assigns, .onCreate false, .onCreate false, .resolved 1 .assigns],
      Single s := by
  intro single
  have last := (single _ (Run.final_mem_states _ _)).assigned
  revert last
  decide

end Single

end Sano.Framework.Instance
