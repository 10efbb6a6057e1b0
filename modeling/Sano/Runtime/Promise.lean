import Sano.Base.Run

namespace Sano.Runtime.Promise

section Model

inductive Value (ν κ : Type) where
  | undefined
  | primitive (value : ν)
  | object (reference : ν)
  | function (callee : κ)
  | promise (p : Nat)
  | selfResolution
deriving DecidableEq

variable {ν κ : Type}

def Value.isObject : Value ν κ → Bool
  | .undefined => false
  | .primitive _ => false
  | _ => true

def Value.isPromise (p : Nat) : Value ν κ → Bool
  | .promise other => other = p
  | _ => false

def Value.callee : Value ν κ → Option κ
  | .function callee => some callee
  | _ => none

inductive Status (ν κ : Type) where
  | pending
  | settled (isReject : Bool) (result : Value ν κ)
deriving DecidableEq

structure ResolvingFunctions where
  promise : Nat
  alreadyResolved : Bool := false
deriving DecidableEq

/-- `serial` counts the calls of `then`. There are no native resolving functions to call for
    an `await` and for the promises of another constructor. -/
structure Reaction (κ : Type) where
  serial : Nat
  resolvingFuncs : Option Nat
  handler : Option κ
deriving DecidableEq

structure PromiseData (ν κ : Type) where
  status : Status ν κ := .pending
  onFulfilled : List (Reaction κ) := []
  onRejected : List (Reaction κ) := []
deriving DecidableEq

def PromiseData.reactions (data : PromiseData ν κ) : Bool → List (Reaction κ)
  | false => data.onFulfilled
  | true => data.onRejected

inductive Job (ν κ : Type) where
  | reaction (reaction : Reaction κ) (isReject : Bool) (arg : Value ν κ)
  | resolveThenable (promise : Nat) (thenable : Value ν κ) (method : κ)
deriving DecidableEq

/-- The native functions that wait for JS code: a resolving function for the property `then`,
    a reaction for its handler, a job for the method `then` and a constructor for its executor. -/
inductive Frame (ν κ : Type) where
  | lookup (promise : Nat) (resolution : Value ν κ)
  | reaction (resolvingFuncs : Option Nat)
  | thenable (funcs : Nat)
  | executor (funcs : Nat)
deriving DecidableEq

/-- `registered` has the promise of each call of `then`, `ran` the reactions that have started,
    and `misfired` tells whether a settled promise was to be settled. -/
structure State (ν κ : Type) where
  promises : List (PromiseData ν κ) := []
  funcs : List ResolvingFunctions := []
  jobs : List (Job ν κ) := []
  stack : List (Frame ν κ) := []
  registered : List Nat := []
  ran : List (Nat × Bool × Value ν κ) := []
  misfired : Bool := false
deriving DecidableEq

/-- The source says of a promise that is not pending that it should never happen. -/
def fulfillOrRejectPromise (s : State ν κ) (p : Nat) (value : Value ν κ) (isReject : Bool) : State ν κ :=
  match s.promises[p]? with
  | some data =>
    match data.status with
    | .pending =>
      { s with
        promises := s.promises.set p { status := .settled isReject value }
        jobs := s.jobs ++ (data.reactions isReject).map (.reaction · isReject value) }
    | .settled _ _ => { s with misfired := true }
  | none => { s with misfired := true }

def createResolvingFunctions (s : State ν κ) (p : Nat) : State ν κ := { s with funcs := s.funcs ++ [⟨p, false⟩] }

def resolveFunctionCall (s : State ν κ) (k : Nat) (isReject : Bool) (resolution : Value ν κ) : State ν κ :=
  match s.funcs[k]? with
  | none => s
  | some pair =>
    if pair.alreadyResolved then s
    else
      let locked := { s with funcs := s.funcs.set k { pair with alreadyResolved := true } }
      if isReject || !resolution.isObject then fulfillOrRejectPromise locked pair.promise resolution isReject
      else if resolution.isPromise pair.promise then fulfillOrRejectPromise locked pair.promise .selfResolution true
      else { locked with stack := .lookup pair.promise resolution :: s.stack }

def newPromise (s : State ν κ) : State ν κ :=
  createResolvingFunctions { s with promises := s.promises ++ [{}] } s.promises.length

def performPromiseThen (s : State ν κ) (p : Nat) (onFulfilled onRejected : Value ν κ) (resolvingFuncs : Option Nat) :
    State ν κ :=
  match s.promises[p]? with
  | none => s
  | some data =>
    let reaction (handler : Value ν κ) : Reaction κ := ⟨s.registered.length, resolvingFuncs, handler.callee⟩
    let known := { s with registered := s.registered ++ [p] }
    match data.status with
    | .pending =>
      { known with
        promises := s.promises.set p
          { data with
            onFulfilled := data.onFulfilled ++ [reaction onFulfilled]
            onRejected := data.onRejected ++ [reaction onRejected] } }
    | .settled isReject result =>
      { known with
        jobs := s.jobs ++ [.reaction (reaction (if isReject then onRejected else onFulfilled)) isReject result] }

/-- With the own constructor, `then` makes the promise that it returns first. -/
def promiseThen (s : State ν κ) (p : Nat) (onFulfilled onRejected : Value ν κ) (native : Bool) : State ν κ :=
  if native then performPromiseThen (newPromise s) p onFulfilled onRejected (some s.funcs.length)
  else performPromiseThen s p onFulfilled onRejected none

def finishReaction (s : State ν κ) (resolvingFuncs : Option Nat) (isReject : Bool) (res : Value ν κ) : State ν κ :=
  match resolvingFuncs with
  | some k => resolveFunctionCall s k isReject res
  | none => s

/-- `JS_ExecutePendingJob`, which runs when no JS code does. Without a handler a reaction passes
    the outcome on. -/
def executePendingJob (s : State ν κ) : State ν κ :=
  match s.stack, s.jobs with
  | [], .reaction reaction isReject arg :: rest =>
    let started := { s with jobs := rest, ran := s.ran ++ [(reaction.serial, isReject, arg)] }
    match reaction.handler with
    | none => finishReaction started reaction.resolvingFuncs isReject arg
    | some _ => { started with stack := [.reaction reaction.resolvingFuncs] }
  | [], .resolveThenable p _ _ :: rest =>
    { createResolvingFunctions { s with jobs := rest } p with stack := [.thenable s.funcs.length] }
  | _, _ => s

def returns (s : State ν κ) (value : Value ν κ) : State ν κ :=
  match s.stack with
  | [] => s
  | .lookup p resolution :: rest =>
    match value.callee with
    | some method => { s with stack := rest, jobs := s.jobs ++ [.resolveThenable p resolution method] }
    | none => fulfillOrRejectPromise { s with stack := rest } p resolution false
  | .reaction resolvingFuncs :: rest => finishReaction { s with stack := rest } resolvingFuncs false value
  | .thenable _ :: rest => { s with stack := rest }
  | .executor _ :: rest => { s with stack := rest }

def throws (s : State ν κ) (error : Value ν κ) : State ν κ :=
  match s.stack with
  | [] => s
  | .lookup p _ :: rest => fulfillOrRejectPromise { s with stack := rest } p error true
  | .reaction resolvingFuncs :: rest => finishReaction { s with stack := rest } resolvingFuncs true error
  | .thenable k :: rest => resolveFunctionCall { s with stack := rest } k true error
  | .executor k :: rest => resolveFunctionCall { s with stack := rest } k true error

/-- `capability` is `JSPromise.create`, whose executor is no JS code, and `call` is a call of a
    resolving function by JS or by `JSPromise.resolve` and `reject`. The last two end the JS code
    that the native function at the top waits for; until then that code may do anything. -/
inductive Event (ν κ : Type) where
  | construct
  | capability
  | promiseThen (p : Nat) (onFulfilled onRejected : Value ν κ) (native : Bool)
  | call (k : Nat) (isReject : Bool) (resolution : Value ν κ)
  | execute
  | returns (value : Value ν κ)
  | throws (error : Value ν κ)

def step (s : State ν κ) : Event ν κ → State ν κ
  | .construct => { newPromise s with stack := .executor s.funcs.length :: s.stack }
  | .capability => newPromise s
  | .promiseThen p onFulfilled onRejected native => promiseThen s p onFulfilled onRejected native
  | .call k isReject resolution => resolveFunctionCall s k isReject resolution
  | .execute => executePendingJob s
  | .returns value => returns s value
  | .throws error => throws s error

def run : List (Event ν κ) → State ν κ := Run.final step {}

end Model

section Authority

variable {ν κ : Type} {s : State ν κ}

def ResolvingFunctions.settles (p : Nat) (pair : ResolvingFunctions) : Bool := pair.promise = p && !pair.alreadyResolved

def Frame.settles (p : Nat) : Frame ν κ → Bool
  | .lookup promise _ => promise = p
  | _ => false

def Job.settles (p : Nat) : Job ν κ → Bool
  | .resolveThenable promise _ _ => promise = p
  | _ => false

/-- How many parties may still settle a promise: resolving functions that were not called, and
    resolutions whose property `then` is being read or whose method `then` is to be called. -/
def authorities (s : State ν κ) (p : Nat) : Nat :=
  s.funcs.countP (·.settles p) + s.stack.countP (·.settles p) + s.jobs.countP (·.settles p)

def statusOf (s : State ν κ) (p : Nat) : Option (Status ν κ) := s.promises[p]?.map PromiseData.status

def Status.owed : Status ν κ → Nat
  | .pending => 1
  | .settled _ _ => 0

def owed (s : State ν κ) (p : Nat) : Nat := ((statusOf s p).map Status.owed).getD 0

/-- A pending promise has one authority and a settled one has none; `inHand` is the promise
    whose authority has been taken and not been used yet. -/
structure Balanced (s : State ν κ) (inHand : Option Nat) : Prop where
  each : ∀ p, authorities s p + (if inHand = some p then 1 else 0) = owed s p
  sane : s.misfired = false

theorem statusOf_set {t : State ν κ} {data next : PromiseData ν κ} {p : Nat} (found : s.promises[p]? = some data)
    (same : t.promises = s.promises.set p next) (q : Nat) :
    statusOf t q = if p = q then some next.status else statusOf s q := by
  have bound := (List.getElem?_eq_some_iff.mp found).1
  unfold statusOf
  rw [same]
  by_cases here : p = q
  · subst here
    rw [List.getElem?_set_self bound, if_pos rfl]
    rfl
  · rw [List.getElem?_set_ne here, if_neg here]

theorem statusOf_new (s : State ν κ) (q : Nat) :
    statusOf (newPromise s) q = if s.promises.length = q then some .pending else statusOf s q := by
  unfold statusOf newPromise createResolvingFunctions
  by_cases same : s.promises.length = q
  · subst same
    simp
  · rw [if_neg same]
    by_cases bound : q < s.promises.length
    · rw [List.getElem?_append_left bound]
    · rw [List.getElem?_eq_none (by simp; omega), List.getElem?_eq_none (by omega)]

theorem fulfill_cases (s : State ν κ) (p : Nat) (value : Value ν κ) (isReject : Bool) :
    (∃ data, s.promises[p]? = some data ∧ data.status = .pending ∧
      fulfillOrRejectPromise s p value isReject =
        { s with
          promises := s.promises.set p { status := .settled isReject value }
          jobs := s.jobs ++ (data.reactions isReject).map (.reaction · isReject value) }) ∨
    (owed s p = 0 ∧ fulfillOrRejectPromise s p value isReject = { s with misfired := true }) := by
  unfold fulfillOrRejectPromise
  cases found : s.promises[p]? with
  | none => exact .inr ⟨by simp [owed, statusOf, found], rfl⟩
  | some data =>
    cases status : data.status with
    | pending =>
      simp only [status]
      exact .inl ⟨data, rfl, status, rfl⟩
    | settled rejected result =>
      simp only [status]
      exact .inr ⟨by simp [owed, statusOf, found, status, Status.owed], trivial⟩

theorem reactions_settle (reactions : List (Reaction κ)) (isReject : Bool) (value : Value ν κ) (p : Nat) :
    (reactions.map (Job.reaction · isReject value)).countP (·.settles p) = 0 := by
  rw [List.countP_eq_zero]
  intro job member
  obtain ⟨reaction, _, rfl⟩ := List.mem_map.mp member
  simp [Job.settles]

theorem owed_pending {data : PromiseData ν κ} {p : Nat} (found : s.promises[p]? = some data)
    (pending : data.status = .pending) : owed s p = 1 := by
  rw [owed, statusOf, found, Option.map_some, pending]
  rfl

theorem Balanced.fulfill {p : Nat} (balanced : Balanced s (some p)) (value : Value ν κ) (isReject : Bool) :
    Balanced (fulfillOrRejectPromise s p value isReject) none := by
  have here := balanced.each p
  rw [if_pos rfl] at here
  obtain ⟨data, found, pending, result⟩ | ⟨nothing, _⟩ := fulfill_cases s p value isReject
  · rw [result]
    refine ⟨fun q => ?_, balanced.sane⟩
    have there := balanced.each q
    simp only [authorities, List.countP_append, reactions_settle] at here there ⊢
    rw [owed, statusOf_set found rfl]
    by_cases same : p = q
    · subst same
      rw [owed_pending found pending] at here
      simp only [if_pos, Option.map_some, Status.owed, Option.getD_some, reduceCtorEq, if_false]
      omega
    · have other : some p ≠ some q := by simpa using same
      rw [if_neg other, owed] at there
      rw [if_neg same, if_neg (by simp)]
      omega
  · omega

/-- The authority is in hand when a pair of resolving functions is used up. -/
theorem Balanced.lock {k : Nat} {pair : ResolvingFunctions} (balanced : Balanced s none)
    (found : s.funcs[k]? = some pair) (unused : pair.alreadyResolved = false) :
    Balanced { s with funcs := s.funcs.set k { pair with alreadyResolved := true } } (some pair.promise) := by
  refine ⟨fun p => ?_, balanced.sane⟩
  have before := balanced.each p
  obtain ⟨bound, element⟩ := List.getElem?_eq_some_iff.mp found
  have counted : (if pair.settles p then 1 else 0) ≤ s.funcs.countP (·.settles p) := by
    split
    · exact List.countP_pos_iff.mpr ⟨pair, List.mem_of_getElem? found, by assumption⟩
    · omega
  change authorities s p + 0 = owed s p at before
  change _ = owed s p
  simp only [authorities, List.countP_set bound, element, Option.some.injEq] at before ⊢
  simp only [ResolvingFunctions.settles, unused, Bool.not_true, Bool.not_false, Bool.and_true, Bool.and_false,
    decide_eq_true_eq, Bool.false_eq_true, if_false] at before counted ⊢
  omega

theorem Balanced.call (balanced : Balanced s none) (k : Nat) (isReject : Bool) (resolution : Value ν κ) :
    Balanced (resolveFunctionCall s k isReject resolution) none := by
  unfold resolveFunctionCall
  cases found : s.funcs[k]? with
  | none => exact balanced
  | some pair =>
    by_cases used : pair.alreadyResolved
    · simpa [used] using balanced
    · have locked := balanced.lock found (by simpa using used)
      simp only [used, Bool.false_eq_true, if_false]
      split
      · exact locked.fulfill _ _
      · split
        · exact locked.fulfill _ _
        · refine ⟨fun p => ?_, locked.sane⟩
          have held := locked.each p
          simp only [authorities, List.countP_cons, Frame.settles, decide_eq_true_eq, Option.some.injEq, reduceCtorEq,
            if_false] at held ⊢
          change _ = owed s p at held
          change _ = owed s p
          omega

theorem Balanced.new (balanced : Balanced s none) : Balanced (newPromise s) none := by
  refine ⟨fun p => ?_, balanced.sane⟩
  have before := balanced.each p
  rw [owed, statusOf_new]
  simp only [authorities, newPromise, createResolvingFunctions, List.countP_append, List.countP_singleton,
    ResolvingFunctions.settles, Bool.not_false, Bool.and_true, decide_eq_true_eq, reduceCtorEq, if_false] at before ⊢
  by_cases fresh : s.promises.length = p
  · have nothing : owed s p = 0 := by simp [owed, statusOf, ← fresh]
    simp only [if_pos fresh, Option.map_some, Status.owed, Option.getD_some]
    omega
  · rw [if_neg fresh, if_neg fresh]
    change _ = owed s p
    omega

theorem Balanced.push (balanced : Balanced s none) (frame : Frame ν κ) (idle : ∀ p, frame.settles p = false) :
    Balanced { s with stack := frame :: s.stack } none := by
  refine ⟨fun p => ?_, balanced.sane⟩
  have before := balanced.each p
  simp only [authorities, List.countP_cons, idle] at before ⊢
  exact before

/-- `then` moves no authority: a reaction may only settle another promise. -/
theorem Balanced.performThen (balanced : Balanced s none) (p : Nat) (onFulfilled onRejected : Value ν κ)
    (resolvingFuncs : Option Nat) : Balanced (performPromiseThen s p onFulfilled onRejected resolvingFuncs) none := by
  unfold performPromiseThen
  cases found : s.promises[p]? with
  | none => exact balanced
  | some data =>
    cases status : data.status with
    | pending =>
      simp only [status]
      refine ⟨fun q => ?_, balanced.sane⟩
      have before := balanced.each q
      have same (next : PromiseData ν κ) (kept : next.status = data.status) :
          (if p = q then some next.status else statusOf s q) = statusOf s q := by
        split
        case isTrue here => rw [← here, statusOf, found, kept, Option.map_some]
        case isFalse => rfl
      rw [owed, statusOf_set found rfl, same _ status.symm]
      exact before
    | settled isReject result =>
      simp only [status]
      refine ⟨fun q => ?_, balanced.sane⟩
      have before := balanced.each q
      simp only [authorities, List.countP_append, List.countP_singleton, Job.settles] at before ⊢
      exact before

theorem Balanced.finish (balanced : Balanced s none) (resolvingFuncs : Option Nat) (isReject : Bool)
    (res : Value ν κ) : Balanced (finishReaction s resolvingFuncs isReject res) none := by
  cases resolvingFuncs with
  | none => exact balanced
  | some k => exact balanced.call k isReject res

theorem Balanced.execute (balanced : Balanced s none) : Balanced (executePendingJob s) none := by
  unfold executePendingJob
  split
  case h_1 reaction isReject arg rest stack jobs =>
    have started : Balanced { s with jobs := rest, ran := s.ran ++ [(reaction.serial, isReject, arg)] } none := by
      refine ⟨fun p => ?_, balanced.sane⟩
      have before := balanced.each p
      simp only [authorities, jobs, List.countP_cons, Job.settles] at before ⊢
      exact before
    split
    · exact started.finish _ _ _
    · have pushed := started.push (.reaction reaction.resolvingFuncs) (fun _ => rfl)
      rwa [stack] at pushed
  case h_2 p _ _ rest stack jobs =>
    -- the two new functions take over from the job
    refine ⟨fun q => ?_, balanced.sane⟩
    have before := balanced.each q
    simp only [authorities, createResolvingFunctions, stack, jobs, List.countP_append, List.countP_cons, List.countP_nil,
      Job.settles, Frame.settles, ResolvingFunctions.settles, Bool.not_false, Bool.and_true, decide_eq_true_eq,
      Bool.false_eq_true, if_false] at before ⊢
    change _ = owed s q
    omega
  case h_3 => exact balanced

theorem Balanced.pop {frame : Frame ν κ} {rest : List (Frame ν κ)} (balanced : Balanced s none)
    (stack : s.stack = frame :: rest) (idle : ∀ p, frame.settles p = false) : Balanced { s with stack := rest } none := by
  refine ⟨fun p => ?_, balanced.sane⟩
  have before := balanced.each p
  simp only [authorities, stack, List.countP_cons, idle] at before ⊢
  exact before

theorem Balanced.popLookup {p : Nat} {resolution : Value ν κ} {rest : List (Frame ν κ)} (balanced : Balanced s none)
    (stack : s.stack = .lookup p resolution :: rest) : Balanced { s with stack := rest } (some p) := by
  refine ⟨fun q => ?_, balanced.sane⟩
  have before := balanced.each q
  simp only [authorities, stack, List.countP_cons, Frame.settles, decide_eq_true_eq, Option.some.injEq, reduceCtorEq,
    if_false] at before ⊢
  change _ = owed s q
  omega

theorem Balanced.returns (balanced : Balanced s none) (value : Value ν κ) :
    Balanced (Promise.returns s value) none := by
  unfold Promise.returns
  split
  case h_1 => exact balanced
  case h_2 p resolution rest stack =>
    have popped := balanced.popLookup stack
    split
    case h_1 method _ =>
      refine ⟨fun q => ?_, balanced.sane⟩
      have held := popped.each q
      simp only [authorities, List.countP_append, List.countP_singleton, Job.settles, decide_eq_true_eq,
        Option.some.injEq, reduceCtorEq, if_false] at held ⊢
      change _ = owed s q at held
      change _ = owed s q
      omega
    case h_2 => exact popped.fulfill _ _
  case h_3 resolvingFuncs rest stack => exact (balanced.pop stack fun _ => rfl).finish _ _ _
  case h_4 stack => exact balanced.pop stack fun _ => rfl
  case h_5 stack => exact balanced.pop stack fun _ => rfl

theorem Balanced.throws (balanced : Balanced s none) (error : Value ν κ) :
    Balanced (Promise.throws s error) none := by
  unfold Promise.throws
  split
  case h_1 => exact balanced
  case h_2 stack => exact (balanced.popLookup stack).fulfill _ _
  case h_3 stack => exact (balanced.pop stack fun _ => rfl).finish _ _ _
  case h_4 stack => exact (balanced.pop stack fun _ => rfl).call _ _ _
  case h_5 stack => exact (balanced.pop stack fun _ => rfl).call _ _ _

theorem Balanced.step (balanced : Balanced s none) (event : Event ν κ) : Balanced (Promise.step s event) none := by
  cases event with
  | construct => exact balanced.new.push _ fun _ => rfl
  | capability => exact balanced.new
  | promiseThen p onFulfilled onRejected native =>
    change Balanced (promiseThen s p onFulfilled onRejected native) none
    unfold promiseThen
    split
    · exact balanced.new.performThen _ _ _ _
    · exact balanced.performThen _ _ _ _
  | call k isReject resolution => exact balanced.call k isReject resolution
  | execute => exact balanced.execute
  | returns value => exact balanced.returns value
  | throws error => exact balanced.throws error

theorem run_balanced (events : List (Event ν κ)) : Balanced (run events) none :=
  Run.final_always Promise.step (Balanced · none) (fun _ event balanced => balanced.step event) events {}
    ⟨fun p => by simp [authorities, owed, statusOf], rfl⟩

/-- No promise is settled twice: a pending one has one party that may settle it, a settled one none. -/
theorem promise_settled_at_most_once (events : List (Event ν κ)) :
    (run events).misfired = false ∧
      ∀ p status, statusOf (run events) p = some status → authorities (run events) p = status.owed := by
  have balanced := run_balanced events
  refine ⟨balanced.sane, fun p status known => ?_⟩
  have holds := balanced.each p
  rw [owed, known] at holds
  simpa using holds

end Authority

end Sano.Runtime.Promise
