import Sano.Runtime.Reactions

namespace Sano.Runtime.Promise

section Handle

variable {ν κ : Type} {s : State ν κ} {k : Nat}

def Frame.funcs : Frame ν κ → Option Nat
  | .lookup _ _ => none
  | .reaction resolvingFuncs => resolvingFuncs
  | .thenable k => some k
  | .executor k => some k

inductive Uses (s : State ν κ) (k : Nat) : Prop where
  | waiting (data : PromiseData ν κ) (known : data ∈ s.promises) (isReject : Bool) (reaction : Reaction κ)
      (member : reaction ∈ data.reactions isReject) (pair : reaction.resolvingFuncs = some k)
  | queued (reaction : Reaction κ) (isReject : Bool) (arg : Value ν κ) (member : .reaction reaction isReject arg ∈ s.jobs)
      (pair : reaction.resolvingFuncs = some k)
  | framed (frame : Frame ν κ) (member : frame ∈ s.stack) (pair : frame.funcs = some k)

theorem Uses.mono {t : State ν κ} (uses : Uses s k) (promises : s.promises ⊆ t.promises) (jobs : s.jobs ⊆ t.jobs)
    (stack : s.stack ⊆ t.stack) : Uses t k := by
  cases uses with
  | waiting data known isReject reaction member pair => exact .waiting data (promises known) isReject reaction member pair
  | queued reaction isReject arg member pair => exact .queued reaction isReject arg (jobs member) pair
  | framed frame member pair => exact .framed frame (stack member) pair

theorem fulfill_uses {p : Nat} {value : Value ν κ} {isReject : Bool}
    (uses : Uses (fulfillOrRejectPromise s p value isReject) k) : Uses s k := by
  obtain ⟨data, found, _, result⟩ | ⟨_, result⟩ := fulfill_cases s p value isReject
  · rw [result] at uses
    cases uses with
    | waiting other known rejected reaction member pair =>
      rcases List.mem_or_eq_of_mem_set known with old | rfl
      · exact .waiting other old rejected reaction member pair
      · cases rejected <;> cases member
    | queued reaction rejected arg member pair =>
      rcases List.mem_append.mp member with old | new
      · exact .queued reaction rejected arg old pair
      · obtain ⟨_, here, same⟩ := List.mem_map.mp new
        cases same
        exact .waiting data (List.mem_of_getElem? found) _ reaction here pair
    | framed frame member pair => exact .framed frame member pair
  · rw [result] at uses
    exact uses.mono (List.Subset.refl _) (List.Subset.refl _) (List.Subset.refl _)

theorem fulfill_funcs (s : State ν κ) (p : Nat) (value : Value ν κ) (isReject : Bool) :
    (fulfillOrRejectPromise s p value isReject).funcs = s.funcs := by
  obtain ⟨_, _, _, result⟩ | ⟨_, result⟩ := fulfill_cases s p value isReject <;> rw [result]

/-- A call does nothing, or it uses the pair up and settles the promise or starts to read `then`. -/
theorem call_cases (s : State ν κ) (j : Nat) (isReject : Bool) (resolution : Value ν κ) :
    resolveFunctionCall s j isReject resolution = s ∨
    ∃ pair : ResolvingFunctions, s.funcs[j]? = some pair ∧ pair.alreadyResolved = false ∧
      ((∃ value rejected, resolveFunctionCall s j isReject resolution =
          fulfillOrRejectPromise { s with funcs := s.funcs.set j { pair with alreadyResolved := true } }
            pair.promise value rejected) ∨
        resolveFunctionCall s j isReject resolution =
          { s with
            funcs := s.funcs.set j { pair with alreadyResolved := true }
            stack := .lookup pair.promise resolution :: s.stack }) := by
  unfold resolveFunctionCall
  cases found : s.funcs[j]? with
  | none => exact .inl rfl
  | some pair =>
    by_cases used : pair.alreadyResolved
    · simp [used]
    · refine .inr ⟨pair, rfl, by simpa using used, ?_⟩
      simp only [used, Bool.false_eq_true, if_false]
      split
      · exact .inl ⟨_, _, rfl⟩
      · split
        · exact .inl ⟨_, _, rfl⟩
        · exact .inr rfl

theorem call_uses {j : Nat} {isReject : Bool} {resolution : Value ν κ}
    (uses : Uses (resolveFunctionCall s j isReject resolution) k) : Uses s k := by
  obtain same | ⟨pair, _, _, ⟨value, rejected, settled⟩ | reading⟩ := call_cases s j isReject resolution
  · rwa [same] at uses
  · rw [settled] at uses
    exact (fulfill_uses uses).mono (List.Subset.refl _) (List.Subset.refl _) (List.Subset.refl _)
  · rw [reading] at uses
    cases uses with
    | waiting data known rejected reaction member pair => exact .waiting data known rejected reaction member pair
    | queued reaction rejected arg member pair => exact .queued reaction rejected arg member pair
    | framed frame member pair =>
      rcases List.mem_cons.mp member with rfl | old
      · cases pair
      · exact .framed frame old pair

theorem call_funcs (s : State ν κ) (j : Nat) (isReject : Bool) (resolution : Value ν κ) :
    (resolveFunctionCall s j isReject resolution).funcs.length = s.funcs.length ∧
      (j ≠ k → (resolveFunctionCall s j isReject resolution).funcs[k]? = s.funcs[k]?) := by
  obtain same | ⟨pair, _, _, ⟨value, rejected, settled⟩ | reading⟩ := call_cases s j isReject resolution
  · rw [same]
    exact ⟨rfl, fun _ => rfl⟩
  · rw [settled, fulfill_funcs]
    exact ⟨List.length_set, fun other => List.getElem?_set_ne other⟩
  · rw [reading]
    exact ⟨List.length_set, fun other => List.getElem?_set_ne other⟩

theorem new_uses (uses : Uses (newPromise s) k) : Uses s k := by
  cases uses with
  | waiting data known isReject reaction member pair =>
    rcases List.mem_append.mp known with old | new
    · exact .waiting data old isReject reaction member pair
    · cases List.mem_singleton.mp new
      cases isReject <;> cases member
  | queued reaction isReject arg member pair => exact .queued reaction isReject arg member pair
  | framed frame member pair => exact .framed frame member pair

theorem new_funcs (s : State ν κ) : (newPromise s).funcs = s.funcs ++ [⟨s.promises.length, false⟩] := rfl

theorem performThen_funcs (s : State ν κ) (p : Nat) (onFulfilled onRejected : Value ν κ) (resolvingFuncs : Option Nat) :
    (performPromiseThen s p onFulfilled onRejected resolvingFuncs).funcs = s.funcs := by
  unfold performPromiseThen
  cases s.promises[p]? with
  | none => rfl
  | some data => cases status : data.status <;> simp [status]

theorem performThen_uses {p : Nat} {onFulfilled onRejected : Value ν κ} {resolvingFuncs : Option Nat}
    (uses : Uses (performPromiseThen s p onFulfilled onRejected resolvingFuncs) k) :
    Uses s k ∨ resolvingFuncs = some k := by
  unfold performPromiseThen at uses
  cases found : s.promises[p]? with
  | none => exact .inl (by simpa [found] using uses)
  | some data =>
    cases status : data.status with
    | pending =>
      simp only [found, status] at uses
      cases uses with
      | waiting other known isReject reaction member pair =>
        rcases List.mem_or_eq_of_mem_set known with old | rfl
        · exact .inl (.waiting other old isReject reaction member pair)
        · have either : reaction ∈ data.reactions isReject ∨ reaction.resolvingFuncs = resolvingFuncs := by
            cases isReject <;> rcases List.mem_append.mp member with old | new
            · exact .inl old
            · exact .inr (by rw [List.mem_singleton.mp new])
            · exact .inl old
            · exact .inr (by rw [List.mem_singleton.mp new])
          rcases either with old | new
          · exact .inl (.waiting data (List.mem_of_getElem? found) isReject reaction old pair)
          · exact .inr (new ▸ pair)
      | queued reaction isReject arg member pair => exact .inl (.queued reaction isReject arg member pair)
      | framed frame member pair => exact .inl (.framed frame member pair)
    | settled rejected result =>
      simp only [found, status] at uses
      cases uses with
      | waiting other known isReject reaction member pair =>
        exact .inl (.waiting other known isReject reaction member pair)
      | queued reaction isReject arg member pair =>
        rcases List.mem_append.mp member with old | new
        · exact .inl (.queued reaction isReject arg old pair)
        · cases List.mem_singleton.mp new
          exact .inr pair
      | framed frame member pair => exact .inl (.framed frame member pair)

theorem finish_uses {resolvingFuncs : Option Nat} {isReject : Bool} {res : Value ν κ}
    (uses : Uses (finishReaction s resolvingFuncs isReject res) k) : Uses s k := by
  cases resolvingFuncs with
  | none => exact uses
  | some j => exact call_uses uses

theorem finish_funcs (s : State ν κ) (resolvingFuncs : Option Nat) (isReject : Bool) (res : Value ν κ) :
    (finishReaction s resolvingFuncs isReject res).funcs.length = s.funcs.length ∧
      (resolvingFuncs ≠ some k → (finishReaction s resolvingFuncs isReject res).funcs[k]? = s.funcs[k]?) := by
  cases resolvingFuncs with
  | none => exact ⟨rfl, fun _ => rfl⟩
  | some j =>
    have called := call_funcs (k := k) s j isReject res
    exact ⟨called.1, fun other => called.2 fun same => other (congrArg some same)⟩

/-- What a step may do to a pair `k` of resolving functions: it makes the pair and puts it to
    use, or, when the engine does not use it and the step is no call of it, nothing. -/
structure Kept (s t : State ν κ) (k : Nat) : Prop where
  uses : Uses t k → Uses s k ∨ (s.funcs.length = k ∧ k < t.funcs.length)
  length : s.funcs.length ≤ t.funcs.length
  pair : k < s.funcs.length → ¬ Uses s k → t.funcs[k]? = s.funcs[k]?

theorem Kept.of_call {t : State ν κ} {j : Nat} {isReject : Bool} {resolution : Value ν κ} (uses : Uses t k → Uses s k)
    (funcs : t.funcs = s.funcs) (other : j = k → Uses s k) : Kept s (resolveFunctionCall t j isReject resolution) k := by
  have called := call_funcs (k := k) t j isReject resolution
  refine ⟨fun used => .inl (uses (call_uses used)), Nat.le_of_eq (by rw [called.1, funcs]), fun _ unused => ?_⟩
  rw [called.2 fun same => unused (other same), funcs]

theorem Kept.of_finish {t : State ν κ} {resolvingFuncs : Option Nat} {isReject : Bool} {res : Value ν κ}
    (uses : Uses t k → Uses s k) (funcs : t.funcs = s.funcs) (other : resolvingFuncs = some k → Uses s k) :
    Kept s (finishReaction t resolvingFuncs isReject res) k := by
  have called := finish_funcs (k := k) t resolvingFuncs isReject res
  refine ⟨fun used => .inl (uses (finish_uses used)), Nat.le_of_eq (by rw [called.1, funcs]), fun _ unused => ?_⟩
  rw [called.2 fun same => unused (other same), funcs]

theorem Kept.of_fulfill {t : State ν κ} {p : Nat} {value : Value ν κ} {isReject : Bool} (uses : Uses t k → Uses s k)
    (funcs : t.funcs = s.funcs) : Kept s (fulfillOrRejectPromise t p value isReject) k := by
  have same : (fulfillOrRejectPromise t p value isReject).funcs = s.funcs := by rw [fulfill_funcs, funcs]
  exact ⟨fun used => .inl (uses (fulfill_uses used)), Nat.le_of_eq (by rw [same]), fun _ _ => by rw [same]⟩

theorem Kept.of_same {t : State ν κ} (uses : Uses t k → Uses s k) (funcs : t.funcs = s.funcs) : Kept s t k :=
  ⟨fun used => .inl (uses used), Nat.le_of_eq (by rw [funcs]), fun _ _ => by rw [funcs]⟩

theorem execute_kept (s : State ν κ) (k : Nat) : Kept s (executePendingJob s) k := by
  unfold executePendingJob
  split
  case h_1 reaction isReject arg rest stack jobs =>
    have head : reaction.resolvingFuncs = some k → Uses s k := fun pair =>
      .queued reaction isReject arg (by rw [jobs]; exact List.mem_cons_self) pair
    have started : Uses { s with jobs := rest, ran := s.ran ++ [(reaction.serial, isReject, arg)] } k → Uses s k :=
      fun used => used.mono (List.Subset.refl _) (by rw [jobs]; exact List.subset_cons_self _ _) (List.Subset.refl _)
    split
    · exact .of_finish started rfl head
    · refine .of_same (fun used => ?_) rfl
      cases used with
      | waiting data known rejected other member pair => exact started (.waiting data known rejected other member pair)
      | queued other rejected value member pair => exact started (.queued other rejected value member pair)
      | framed frame member pair =>
        cases List.mem_singleton.mp member
        exact head pair
  case h_2 p _ _ rest stack jobs =>
    refine ⟨fun used => ?_, by simp [createResolvingFunctions], fun bound _ => ?_⟩
    · cases used with
      | waiting data known rejected other member pair => exact .inl (.waiting data known rejected other member pair)
      | queued other rejected value member pair =>
        exact .inl (.queued other rejected value (by rw [jobs]; exact List.mem_cons_of_mem _ member) pair)
      | framed frame member pair =>
        cases List.mem_singleton.mp member
        injection pair with same
        exact .inr ⟨same, by simp [createResolvingFunctions, ← same]⟩
    · exact List.getElem?_append_left bound
  case h_3 => exact .of_same id rfl

theorem pop_uses {frame : Frame ν κ} {rest : List (Frame ν κ)} (stack : s.stack = frame :: rest)
    (used : Uses { s with stack := rest } k) : Uses s k :=
  used.mono (List.Subset.refl _) (List.Subset.refl _) (by rw [stack]; exact List.subset_cons_self _ _)

theorem top_uses {frame : Frame ν κ} {rest : List (Frame ν κ)} (stack : s.stack = frame :: rest)
    (pair : frame.funcs = some k) : Uses s k :=
  .framed frame (by rw [stack]; exact List.mem_cons_self) pair

theorem returns_kept (s : State ν κ) (value : Value ν κ) (k : Nat) : Kept s (returns s value) k := by
  unfold returns
  split
  case h_1 => exact .of_same id rfl
  case h_2 p resolution rest stack =>
    split
    · refine .of_same (fun used => pop_uses stack ?_) rfl
      cases used with
      | waiting data known rejected other member pair => exact .waiting data known rejected other member pair
      | queued other rejected value member pair =>
        rcases List.mem_append.mp member with old | new
        · exact .queued other rejected value old pair
        · cases List.mem_singleton.mp new
      | framed frame member pair => exact .framed frame member pair
    · exact .of_fulfill (pop_uses stack) rfl
  case h_3 stack => exact .of_finish (pop_uses stack) rfl (top_uses stack)
  case h_4 stack => exact .of_same (pop_uses stack) rfl
  case h_5 stack => exact .of_same (pop_uses stack) rfl

theorem throws_kept (s : State ν κ) (error : Value ν κ) (k : Nat) : Kept s (throws s error) k := by
  unfold throws
  split
  case h_1 => exact .of_same id rfl
  case h_2 stack => exact .of_fulfill (pop_uses stack) rfl
  case h_3 stack => exact .of_finish (pop_uses stack) rfl (top_uses stack)
  case h_4 stack => exact .of_call (pop_uses stack) rfl fun same => top_uses stack (congrArg some same)
  case h_5 stack => exact .of_call (pop_uses stack) rfl fun same => top_uses stack (congrArg some same)

theorem new_kept (s : State ν κ) (k : Nat) : Kept s (newPromise s) k :=
  ⟨fun used => .inl (new_uses used), by simp [new_funcs], fun bound _ => List.getElem?_append_left bound⟩

theorem construct_kept (s : State ν κ) (k : Nat) : Kept s (step s .construct) k := by
  have made := new_kept s k
  refine ⟨fun used => ?_, made.length, made.pair⟩
  cases used with
  | waiting data known rejected other member pair => exact made.uses (.waiting data known rejected other member pair)
  | queued other rejected value member pair => exact made.uses (.queued other rejected value member pair)
  | framed frame member pair =>
    rcases List.mem_cons.mp member with rfl | old
    · injection pair with same
      exact .inr ⟨same, by simp [step, new_funcs, ← same]⟩
    · exact made.uses (.framed frame old pair)

theorem promiseThen_kept (s : State ν κ) (p : Nat) (onFulfilled onRejected : Value ν κ) (native : Bool) (k : Nat) :
    Kept s (promiseThen s p onFulfilled onRejected native) k := by
  have made := new_kept s k
  unfold promiseThen
  split
  · refine ⟨fun used => ?_, by rw [performThen_funcs]; exact made.length, fun bound unused => ?_⟩
    · rw [performThen_funcs]
      rcases performThen_uses used with before | pair
      · exact made.uses before
      · injection pair with same
        exact .inr ⟨same, by simp [new_funcs, ← same]⟩
    · rw [performThen_funcs]
      exact made.pair bound unused
  · refine .of_same (fun used => ?_) (performThen_funcs _ _ _ _ _)
    exact (performThen_uses used).resolve_right (by simp)

/-- Only a call of the pair is left out. -/
theorem step_kept (s : State ν κ) (event : Event ν κ) (k : Nat)
    (silent : ∀ isReject resolution, event ≠ .call k isReject resolution) : Kept s (step s event) k := by
  cases event with
  | construct => exact construct_kept s k
  | capability => exact new_kept s k
  | promiseThen p onFulfilled onRejected native => exact promiseThen_kept s p onFulfilled onRejected native k
  | call j isReject resolution =>
    refine .of_call id rfl fun same => ?_
    exact absurd (by rw [same]) (silent isReject resolution)
  | execute => exact execute_kept s k
  | returns value => exact returns_kept s value k
  | throws error => exact throws_kept s error k

theorem step_fresh (s : State ν κ) (event : Event ν κ) (fresh : ∀ k, Uses s k → k < s.funcs.length) (k : Nat)
    (used : Uses (step s event) k) : k < (step s event).funcs.length := by
  by_cases called : ∃ isReject resolution, event = .call k isReject resolution
  · obtain ⟨isReject, resolution, rfl⟩ := called
    have bound := fresh k (call_uses used)
    rwa [← (call_funcs (k := k) s k isReject resolution).1] at bound
  · have kept := step_kept s event k fun isReject resolution same => called ⟨isReject, resolution, same⟩
    rcases kept.uses used with before | ⟨_, bound⟩
    · exact Nat.lt_of_lt_of_le (fresh k before) kept.length
    · exact bound

theorem run_fresh (events : List (Event ν κ)) : ∀ k, Uses (run events) k → k < (run events).funcs.length := by
  refine Run.final_always step (fun s => ∀ k, Uses s k → k < s.funcs.length) step_fresh events {} fun k used => ?_
  cases used with
  | waiting _ known => cases known
  | queued _ _ _ member => cases member
  | framed _ member => cases member

structure Private (s : State ν κ) (k p : Nat) : Prop where
  pair : s.funcs[k]? = some ⟨p, false⟩
  unused : ¬ Uses s k

theorem Private.step {p : Nat} (owned : Private s k p) (event : Event ν κ)
    (silent : ∀ isReject resolution, event ≠ .call k isReject resolution) : Private (Promise.step s event) k p := by
  have kept := step_kept s event k silent
  have bound := (List.getElem?_eq_some_iff.mp owned.pair).1
  refine ⟨(kept.pair bound owned.unused).trans owned.pair, fun used => ?_⟩
  rcases kept.uses used with before | ⟨same, _⟩
  · exact owned.unused before
  · omega

theorem Private.final {p : Nat} (owned : Private s k p) {events : List (Event ν κ)}
    (silent : ∀ isReject resolution, .call k isReject resolution ∉ events) :
    Private (Run.final Promise.step s events) k p := by
  induction events generalizing s with
  | nil => exact owned
  | cons event rest ih =>
    refine ih (owned.step event fun isReject resolution same => ?_) fun isReject resolution later => ?_
    · exact silent isReject resolution (by rw [same]; exact List.mem_cons_self)
    · exact silent isReject resolution (List.mem_cons_of_mem _ later)

theorem capability_private (fresh : ∀ k, Uses s k → k < s.funcs.length) :
    Private (step s .capability) s.funcs.length s.promises.length := by
  refine ⟨by simp [step, new_funcs], fun used => ?_⟩
  exact Nat.lt_irrefl _ (fresh _ (new_uses used))

theorem Balanced.pending_of_pair {p : Nat} (balanced : Balanced s none) (pair : s.funcs[k]? = some ⟨p, false⟩) :
    statusOf s p = some .pending := by
  have holds := balanced.each p
  have counted : 0 < s.funcs.countP (·.settles p) :=
    List.countP_pos_iff.mpr ⟨_, List.mem_of_getElem? pair, by simp [ResolvingFunctions.settles]⟩
  simp only [authorities, owed, reduceCtorEq, if_false] at holds
  cases status : statusOf s p with
  | none =>
    simp only [status, Option.map_none, Option.getD_none] at holds
    omega
  | some found =>
    cases found with
    | pending => rfl
    | settled =>
      simp only [status, Option.map_some, Status.owed, Option.getD_some] at holds
      omega

def immediate (p : Nat) (isReject : Bool) (resolution : Value ν κ) : Option (Bool × Value ν κ) :=
  if isReject || !resolution.isObject then some (isReject, resolution)
  else if resolution.isPromise p then some (true, .selfResolution)
  else none

theorem statusOf_fulfill {p : Nat} (pending : statusOf s p = some .pending) (value : Value ν κ) (isReject : Bool) :
    statusOf (fulfillOrRejectPromise s p value isReject) p = some (.settled isReject value) := by
  obtain ⟨data, found, _, result⟩ | ⟨nothing, _⟩ := fulfill_cases s p value isReject
  · rw [result, statusOf_set found rfl, if_pos rfl]
  · simp [owed, pending, Status.owed] at nothing

theorem statusOf_call {p : Nat} {isReject rejected : Bool} {resolution value : Value ν κ}
    (pair : s.funcs[k]? = some ⟨p, false⟩) (pending : statusOf s p = some .pending)
    (decides : immediate p isReject resolution = some (rejected, value)) :
    statusOf (resolveFunctionCall s k isReject resolution) p = some (.settled rejected value) := by
  have locked : statusOf { s with funcs := s.funcs.set k ⟨p, true⟩ } p = some .pending := pending
  unfold immediate at decides
  simp only [resolveFunctionCall, pair, Bool.false_eq_true, if_false]
  split at decides
  case isTrue direct =>
    cases decides
    rw [if_pos direct]
    exact statusOf_fulfill locked _ _
  case isFalse indirect =>
    rw [if_neg indirect]
    split at decides
    case isTrue itself =>
      cases decides
      rw [if_pos itself]
      exact statusOf_fulfill locked _ _
    case isFalse => cases decides

/-- The promise of `JSPromise.create` is pending until its own functions are called; the first
    call decides, and whatever follows changes nothing. -/
theorem handle_decided_by_its_first_call (before between after : List (Event ν κ)) (isReject rejected : Bool)
    (resolution value : Value ν κ)
    (silent : ∀ isReject resolution, .call (run before).funcs.length isReject resolution ∉ between)
    (decides : immediate (run before).promises.length isReject resolution = some (rejected, value)) :
    statusOf (run (before ++ .capability :: between)) (run before).promises.length = some .pending ∧
      statusOf (run (before ++ .capability :: between ++ .call (run before).funcs.length isReject resolution :: after))
        (run before).promises.length = some (.settled rejected value) := by
  have owned : Private (run (before ++ .capability :: between)) (run before).funcs.length
      (run before).promises.length := by
    have made := capability_private (run_fresh before)
    rw [run, Run.final_append]
    exact made.final silent
  have pending := (run_balanced (before ++ .capability :: between)).pending_of_pair owned.pair
  refine ⟨pending, ?_⟩
  have called := statusOf_call owned.pair pending decides
  rw [run, Run.final_append]
  exact (run_moves _ after).settled_stays called

theorem handle_decided_by_its_first_call_reject :
    statusOf (run ([.capability] ++ .capability :: [.call 0 false (.promise 1)] ++ .call 1 true (.primitive 4) ::
      [.call 1 false (.primitive 3), .returns .undefined] : List (Event Nat Nat))) 1 = some (.settled true (.primitive 4)) :=
  (handle_decided_by_its_first_call [.capability] [.call 0 false (.promise 1)]
    [.call 1 false (.primitive 3), .returns .undefined] true true (.primitive 4) (.primitive 4)
    (by intro isReject resolution member; cases List.mem_singleton.mp member) (by decide)).2

end Handle

end Sano.Runtime.Promise
