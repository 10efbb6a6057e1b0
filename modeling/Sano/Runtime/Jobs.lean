import Mathlib.Algebra.Order.Ring.Nat
import Sano.Base.Recursion
import Sano.Base.Run

namespace Sano.Runtime.Jobs

section Model

/-- The ways from Dart into JS: `evaluateJavaScript`, the ticks of the two timer
    plugins, `resolve` and `reject` of a promise, and `Bridge.invoke`. -/
inductive Entry where
  | evaluate
  | timeoutTick
  | intervalTick
  | resolve
  | reject
  | invoke
deriving DecidableEq

def Entry.dispatches : Entry → Bool
  | .evaluate => true
  | .timeoutTick => true
  | .intervalTick => true
  | .resolve => true
  | .reject => true
  | .invoke => false

/-- What a piece of JS code does, one thing after the other: it enqueues a job,
    or it calls a host function whose handler enters JS again. It ends normally
    or throws. A job is the code that it will run. -/
inductive Code where
  | done (throws : Bool)
  | enqueue (job rest : Code)
  | enter (entry : Entry) (body rest : Code)
deriving DecidableEq

structure State where
  jobs : List Code := []
  drains : Nat := 0
deriving DecidableEq

def executePendingJob (s : State) : State := { s with drains := s.drains + 1 }

def leave (entry : Entry) (thrown : Bool) (s : State) : State :=
  if entry.dispatches && !thrown then executePendingJob s else s

def Code.run : Code → State → State × Bool
  | .done throws, s => (s, throws)
  | .enqueue job rest, s => rest.run { s with jobs := s.jobs ++ [job] }
  | .enter entry body rest, s => rest.run (leave entry (body.run s).2 (body.run s).1)

def Code.weight : Code → Nat
  | .done _ => 1
  | .enqueue job rest => job.weight + rest.weight
  | .enter _ body rest => body.weight + rest.weight

def weight (jobs : List Code) : Nat := (jobs.map Code.weight).sum

def drainStep (loop : State → State) (s : State) : State :=
  match s.jobs with
  | [] => s
  | job :: rest =>
    let (t, failed) := job.run { s with jobs := rest }
    if failed then t else loop t

def drain : State → State := Recursion.fix drainStep {} fun s => weight s.jobs

inductive Event where
  | enter (entry : Entry) (body : Code)
  | drain

def step (s : State) : Event → State
  | .enter entry body => leave entry (body.run s).2 (body.run s).1
  | .drain => if s.drains = 0 then s else drain { s with drains := s.drains - 1 }

end Model

section Effects

def Code.throws : Code → Bool
  | .done throws => throws
  | .enqueue _ rest => rest.throws
  | .enter _ _ rest => rest.throws

def Code.enqueued : Code → List Code
  | .done _ => []
  | .enqueue job rest => job :: rest.enqueued
  | .enter _ body rest => body.enqueued ++ rest.enqueued

def Code.scheduled : Code → Nat
  | .done _ => 0
  | .enqueue _ rest => rest.scheduled
  | .enter entry body rest =>
    body.scheduled + (if entry.dispatches && !body.throws then 1 else 0) + rest.scheduled

theorem leave_jobs (entry : Entry) (thrown : Bool) (s : State) : (leave entry thrown s).jobs = s.jobs := by
  unfold leave
  split <;> rfl

theorem leave_drains (entry : Entry) (thrown : Bool) (s : State) :
    (leave entry thrown s).drains = s.drains + if entry.dispatches && !thrown then 1 else 0 := by
  unfold leave
  split <;> rfl

theorem run_eq (code : Code) (s : State) :
    code.run s = (⟨s.jobs ++ code.enqueued, s.drains + code.scheduled⟩, code.throws) := by
  induction code generalizing s with
  | done throws => simp [Code.run, Code.enqueued, Code.scheduled, Code.throws]
  | enqueue job rest _ ih => simp [Code.run, Code.enqueued, Code.scheduled, Code.throws, ih]
  | enter entry body rest first later =>
    rw [Code.run, later, leave_jobs, leave_drains, first]
    simp [Code.enqueued, Code.scheduled, Code.throws, Nat.add_assoc]

theorem weight_append (first second : List Code) : weight (first ++ second) = weight first + weight second := by
  simp [weight]

theorem weight_enqueued (code : Code) : weight code.enqueued < code.weight := by
  induction code with
  | done throws => simp [Code.enqueued, Code.weight, weight]
  | enqueue job rest _ later =>
    simp only [Code.enqueued, Code.weight, weight, List.map_cons, List.sum_cons] at later ⊢
    omega
  | enter entry body rest first later =>
    rw [Code.enqueued, weight_append, Code.weight]
    omega

theorem weight_next (job : Code) (rest : List Code) : weight (rest ++ job.enqueued) < weight (job :: rest) := by
  have lighter := weight_enqueued job
  rw [weight_append]
  simp only [weight, List.map_cons, List.sum_cons] at lighter ⊢
  omega

theorem drain_eq (s : State) : drain s = drainStep drain s := by
  refine Recursion.fix_eq (fun f g s same => ?_) _ _
  unfold drainStep
  cases queue : s.jobs with
  | nil => rfl
  | cons job rest =>
    simp only [run_eq]
    split
    · rfl
    · apply same
      rw [queue]
      exact weight_next job rest

end Effects

section Stranded

def Stranded (s : State) : Prop := s.jobs ≠ [] ∧ s.drains = 0

def cleanStep (clean : List Code → Bool) : List Code → Bool
  | [] => true
  | job :: rest =>
    0 < job.scheduled ||
      if job.throws then (rest ++ job.enqueued).isEmpty else clean (rest ++ job.enqueued)

/-- Of the jobs in a queue, in the order in which they run: the first one to
    fail is the last one, or a nested entry has scheduled a drain by then. -/
def clean : List Code → Bool := Recursion.fix cleanStep true weight

def Safe (s : State) : Event → Prop
  | .enter entry body =>
    (entry.dispatches = true ∧ body.throws = false) ∨ 0 < s.drains ∨ 0 < body.scheduled ∨ body.enqueued = []
  | .drain => s.drains = 1 → clean s.jobs = true

theorem clean_eq (jobs : List Code) : clean jobs = cleanStep clean jobs := by
  refine Recursion.fix_eq (fun f g jobs same => ?_) _ _
  cases jobs with
  | nil => rfl
  | cons job rest => simp only [cleanStep, same _ (weight_next job rest)]

theorem drain_drains (s : State) : s.drains ≤ (drain s).drains := by
  generalize heavy : weight s.jobs = n
  induction n using Nat.strongRecOn generalizing s with
  | ind n ih =>
    rw [drain_eq, drainStep]
    cases queue : s.jobs with
    | nil => exact Nat.le_refl _
    | cons job rest =>
      simp only [run_eq]
      split
      · exact Nat.le_add_right _ _
      · have lighter := weight_next job rest
        have later := ih _ (by rw [← heavy, queue]; exact lighter) ⟨rest ++ job.enqueued, s.drains + job.scheduled⟩ rfl
        exact Nat.le_trans (Nat.le_add_right _ _) later

/-- The last pending drain leaves the queue clean exactly when the queue was. -/
theorem drain_stranded (jobs : List Code) : ¬ Stranded (drain ⟨jobs, 0⟩) ↔ clean jobs = true := by
  generalize heavy : weight jobs = n
  induction n using Nat.strongRecOn generalizing jobs with
  | ind n ih =>
    rw [drain_eq, clean_eq]
    cases jobs with
    | nil => simp [drainStep, cleanStep, Stranded]
    | cons job rest =>
      simp only [drainStep, cleanStep, run_eq, Nat.zero_add]
      by_cases more : 0 < job.scheduled
      · simp only [more, decide_true, Bool.true_or, iff_true]
        split
        · simp only [Stranded]
          omega
        · have kept := drain_drains ⟨rest ++ job.enqueued, job.scheduled⟩
          simp only [Stranded]
          simp only at kept
          omega
      · have none : job.scheduled = 0 := by omega
        simp only [none, Nat.lt_irrefl, decide_false, Bool.false_or]
        cases job.throws with
        | true => simp [Stranded]
        | false =>
          simp only [Bool.false_eq_true, if_false]
          exact ih _ (by rw [← heavy]; exact weight_next job rest) _ rfl

theorem enter_stranded {s : State} (fine : ¬ Stranded s) (entry : Entry) (body : Code) :
    ¬ Stranded (step s (.enter entry body)) ↔ Safe s (.enter entry body) := by
  simp only [step, Safe, Stranded, leave_jobs, leave_drains, run_eq] at fine ⊢
  cases dispatches : entry.dispatches && !body.throws with
  | true =>
    have leaves : entry.dispatches = true ∧ body.throws = false := by simpa using dispatches
    simp [leaves]
  | false =>
    have stays : ¬ (entry.dispatches = true ∧ body.throws = false) := by simpa using dispatches
    simp only [stays, false_or, Bool.false_eq_true, if_false, Nat.add_zero]
    by_cases waiting : s.jobs = []
    · rw [waiting, List.nil_append]
      by_cases none : body.enqueued = []
      · simp [none]
      · simp only [none, or_false, ne_eq, not_false_eq_true, true_and]
        omega
    · have pending : s.drains ≠ 0 := fun empty => fine ⟨waiting, empty⟩
      have busy : 0 < s.drains := Nat.pos_of_ne_zero pending
      simp [waiting, busy, pending]

theorem drain_step_stranded {s : State} (fine : ¬ Stranded s) : ¬ Stranded (step s .drain) ↔ Safe s .drain := by
  rcases s with ⟨jobs, _ | _ | more⟩
  · simpa [step, Safe] using fine
  · simpa [step, Safe] using drain_stranded jobs
  · have kept := drain_drains ⟨jobs, more + 1⟩
    simp only [step, Safe, Stranded] at kept ⊢
    simp
    omega

/-- In a run no job is ever stranded exactly when every step is safe. -/
theorem jobs_never_stranded_iff (events : List Event) :
    (∀ s ∈ Run.states step {} events, s.jobs ≠ [] → 0 < s.drains) ↔ Run.Along step Safe {} events := by
  have meaning : ∀ s : State, (s.jobs ≠ [] → 0 < s.drains) ↔ ¬ Stranded s := by
    intro s
    simp only [Stranded, not_and]
    exact imp_congr_right fun _ => Nat.pos_iff_ne_zero
  have empty : ¬ Stranded {} := fun stranded => stranded.1 rfl
  simp_rw [meaning]
  refine Run.all_states_iff (fun s event fine => ?_) events _ empty
  cases event with
  | enter entry body => exact enter_stranded fine entry body
  | drain => exact drain_step_stranded fine

/-- `Bridge.invoke` calls a JS function that enqueues a job, and no drain is
    scheduled for it. -/
theorem invoke_strands_a_job :
    ∃ s ∈ Run.states step {} [.enter .invoke (.enqueue (.done false) (.done false))], s.jobs ≠ [] ∧ ¬ 0 < s.drains := by
  decide

end Stranded

end Sano.Runtime.Jobs
