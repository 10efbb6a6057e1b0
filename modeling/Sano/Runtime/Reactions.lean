import Mathlib.Logic.Relation
import Sano.Runtime.Promise

namespace Sano.Runtime.Promise

section Ledger

variable {ν κ : Type} {s t : State ν κ}

def Job.entry : Job ν κ → Option (Nat × Bool × Value ν κ)
  | .reaction started isReject arg => some (started.serial, isReject, arg)
  | .resolveThenable _ _ _ => none

def entries (s : State ν κ) : List (Nat × Bool × Value ν κ) := s.ran ++ s.jobs.filterMap Job.entry

def entriesOf (s : State ν κ) (p : Nat) : List (Nat × Bool × Value ν κ) :=
  (entries s).filter fun entry => s.registered[entry.1]? = some p

def serialsOf (s : State ν κ) (p : Nat) : List Nat :=
  (List.range s.registered.length).filter fun serial => s.registered[serial]? = some p

def waiting (s : State ν κ) (p : Nat) (isReject : Bool) : List Nat :=
  ((s.promises[p]?.map fun data => data.reactions isReject).getD []).map Reaction.serial

inductive Move (s t : State ν κ) : Prop where
  | control (promises : t.promises = s.promises) (registered : t.registered = s.registered)
      (entries : entries t = entries s)
  | create (promises : t.promises = s.promises ++ [({} : PromiseData ν κ)]) (registered : t.registered = s.registered)
      (entries : entries t = entries s)
  | settle (p : Nat) (data : PromiseData ν κ) (isReject : Bool) (value : Value ν κ)
      (found : s.promises[p]? = some data) (pending : data.status = .pending)
      (promises : t.promises = s.promises.set p { status := .settled isReject value })
      (registered : t.registered = s.registered)
      (entries : entries t = entries s ++ (data.reactions isReject).map fun reaction => (reaction.serial, isReject, value))
  | wait (p : Nat) (data next : PromiseData ν κ) (found : s.promises[p]? = some data) (pending : data.status = .pending)
      (promises : t.promises = s.promises.set p next) (still : next.status = .pending)
      (reactions : ∀ isReject, (next.reactions isReject).map Reaction.serial =
        (data.reactions isReject).map Reaction.serial ++ [s.registered.length])
      (registered : t.registered = s.registered ++ [p]) (entries : entries t = entries s)
  | enqueue (p : Nat) (isReject : Bool) (value : Value ν κ) (settled : statusOf s p = some (.settled isReject value))
      (promises : t.promises = s.promises) (registered : t.registered = s.registered ++ [p])
      (entries : entries t = entries s ++ [(s.registered.length, isReject, value)])

def Moves (s t : State ν κ) : Prop := Relation.ReflTransGen Move s t

theorem Moves.refl (s : State ν κ) : Moves s s := Relation.ReflTransGen.refl

theorem Move.moves (move : Move s t) : Moves s t := Relation.ReflTransGen.single move

theorem Moves.trans {u : State ν κ} (first : Moves s t) (second : Moves t u) : Moves s u :=
  Relation.ReflTransGen.trans first second

theorem entries_reactions (reactions : List (Reaction κ)) (isReject : Bool) (value : Value ν κ) :
    (reactions.map (Job.reaction · isReject value)).filterMap Job.entry =
      reactions.map fun reaction => (reaction.serial, isReject, value) := by
  induction reactions with
  | nil => rfl
  | cons reaction rest ih => simp [Job.entry, ih]

theorem fulfill_moves (s : State ν κ) (p : Nat) (value : Value ν κ) (isReject : Bool) :
    Moves s (fulfillOrRejectPromise s p value isReject) := by
  obtain ⟨data, found, pending, result⟩ | ⟨_, result⟩ := fulfill_cases s p value isReject
  · rw [result]
    refine Move.moves (.settle p data isReject value found pending rfl rfl ?_)
    simp only [entries, List.filterMap_append, entries_reactions, List.append_assoc]
  · rw [result]
    exact Move.moves (.control rfl rfl rfl)

theorem call_moves (s : State ν κ) (k : Nat) (isReject : Bool) (resolution : Value ν κ) :
    Moves s (resolveFunctionCall s k isReject resolution) := by
  unfold resolveFunctionCall
  cases s.funcs[k]? with
  | none => exact Moves.refl s
  | some pair =>
    simp only
    have locked : Moves s { s with funcs := s.funcs.set k { pair with alreadyResolved := true } } :=
      Move.moves (.control rfl rfl rfl)
    split
    · exact Moves.refl s
    · split
      · exact locked.trans (fulfill_moves _ _ _ _)
      · split
        · exact locked.trans (fulfill_moves _ _ _ _)
        · exact Move.moves (.control rfl rfl rfl)

theorem performThen_moves (s : State ν κ) (p : Nat) (onFulfilled onRejected : Value ν κ) (resolvingFuncs : Option Nat) :
    Moves s (performPromiseThen s p onFulfilled onRejected resolvingFuncs) := by
  unfold performPromiseThen
  cases found : s.promises[p]? with
  | none => exact Moves.refl s
  | some data =>
    cases status : data.status with
    | pending =>
      simp only [status]
      refine Move.moves (.wait p data _ found status rfl rfl (fun isReject => ?_) rfl rfl)
      cases isReject <;> simp [PromiseData.reactions]
    | settled isReject result =>
      simp only [status]
      refine Move.moves (.enqueue p isReject result ?_ rfl rfl ?_)
      · rw [statusOf, found, Option.map_some, status]
      · simp [entries, Job.entry]

theorem finish_moves (s : State ν κ) (resolvingFuncs : Option Nat) (isReject : Bool) (res : Value ν κ) :
    Moves s (finishReaction s resolvingFuncs isReject res) := by
  cases resolvingFuncs with
  | none => exact Moves.refl s
  | some k => exact call_moves s k isReject res

theorem execute_moves (s : State ν κ) : Moves s (executePendingJob s) := by
  unfold executePendingJob
  split
  case h_1 reaction isReject arg rest stack jobs =>
    have started : Moves s { s with jobs := rest, ran := s.ran ++ [(reaction.serial, isReject, arg)] } :=
      Move.moves (.control rfl rfl (by simp [entries, jobs, Job.entry]))
    split
    · exact started.trans (finish_moves _ _ _ _)
    · exact started.trans (Move.moves (.control rfl rfl rfl))
  case h_2 rest _ jobs =>
    refine Move.moves (.control rfl rfl ?_)
    rw [entries, entries, jobs, List.filterMap_cons_none rfl]
    rfl
  case h_3 => exact Moves.refl s

theorem pop_moves (s : State ν κ) (rest : List (Frame ν κ)) : Moves s { s with stack := rest } :=
  Move.moves (.control rfl rfl rfl)

theorem returns_moves (s : State ν κ) (value : Value ν κ) : Moves s (returns s value) := by
  unfold returns
  split
  case h_1 => exact Moves.refl s
  case h_2 rest _ =>
    split
    · exact Move.moves (.control rfl rfl (by simp [entries, Job.entry]))
    · exact (pop_moves s rest).trans (fulfill_moves _ _ _ _)
  case h_3 rest _ => exact (pop_moves s rest).trans (finish_moves _ _ _ _)
  case h_4 => exact pop_moves s _
  case h_5 => exact pop_moves s _

theorem throws_moves (s : State ν κ) (error : Value ν κ) : Moves s (throws s error) := by
  unfold throws
  split
  case h_1 => exact Moves.refl s
  case h_2 rest _ => exact (pop_moves s rest).trans (fulfill_moves _ _ _ _)
  case h_3 rest _ => exact (pop_moves s rest).trans (finish_moves _ _ _ _)
  case h_4 rest _ => exact (pop_moves s rest).trans (call_moves _ _ _ _)
  case h_5 rest _ => exact (pop_moves s rest).trans (call_moves _ _ _ _)

theorem step_moves (s : State ν κ) (event : Event ν κ) : Moves s (step s event) := by
  have created : Moves s (newPromise s) := Move.moves (.create rfl rfl rfl)
  cases event with
  | construct => exact created.trans (Move.moves (.control rfl rfl rfl))
  | capability => exact created
  | promiseThen p onFulfilled onRejected native =>
    change Moves s (promiseThen s p onFulfilled onRejected native)
    unfold promiseThen
    split
    · exact created.trans (performThen_moves _ _ _ _ _)
    · exact performThen_moves _ _ _ _ _
  | call k isReject resolution => exact call_moves s k isReject resolution
  | execute => exact execute_moves s
  | returns value => exact returns_moves s value
  | throws error => exact throws_moves s error

theorem run_moves (s : State ν κ) (events : List (Event ν κ)) : Moves s (Run.final step s events) := by
  refine Run.final_always step (Moves s) (fun t event reached => reached.trans (step_moves t event)) events s ?_
  exact Moves.refl s

structure Accounted (s : State ν κ) : Prop where
  idle : ∀ p isReject, statusOf s p ≠ some .pending → waiting s p isReject = []
  serials : ∀ p isReject, (entriesOf s p).map (·.1) ++ waiting s p isReject = serialsOf s p
  outcome : ∀ serial isReject value, (serial, isReject, value) ∈ entries s →
    ∃ p, s.registered[serial]? = some p ∧ statusOf s p = some (.settled isReject value)

theorem serialsOf_snoc {p : Nat} (registered : t.registered = s.registered ++ [p]) (q : Nat) :
    serialsOf t q = serialsOf s q ++ if p = q then [s.registered.length] else [] := by
  have old : ∀ serial ∈ List.range s.registered.length,
      decide ((s.registered ++ [p])[serial]? = some q) = decide (s.registered[serial]? = some q) := by
    intro serial member
    rw [List.getElem?_append_left (List.mem_range.mp member)]
  unfold serialsOf
  rw [registered, List.length_append, List.length_singleton, List.range_succ, List.filter_append,
    List.filter_congr old]
  by_cases same : p = q <;> simp [same]

theorem waiting_set {data next : PromiseData ν κ} {p : Nat} (found : s.promises[p]? = some data)
    (promises : t.promises = s.promises.set p next) (q : Nat) (isReject : Bool) :
    waiting t q isReject = if p = q then (next.reactions isReject).map Reaction.serial else waiting s q isReject := by
  have bound := (List.getElem?_eq_some_iff.mp found).1
  unfold waiting
  rw [promises]
  by_cases here : p = q
  · subst here
    rw [List.getElem?_set_self bound, if_pos rfl]
    rfl
  · rw [List.getElem?_set_ne here, if_neg here]

theorem waiting_found {data : PromiseData ν κ} {p : Nat} (found : s.promises[p]? = some data) (isReject : Bool) :
    waiting s p isReject = (data.reactions isReject).map Reaction.serial := by
  rw [waiting, found]
  rfl

theorem waiting_new (promises : t.promises = s.promises ++ [({} : PromiseData ν κ)]) (q : Nat) (isReject : Bool) :
    waiting t q isReject = waiting s q isReject := by
  unfold waiting
  rw [promises]
  by_cases bound : q < s.promises.length
  · rw [List.getElem?_append_left bound]
  · rw [List.getElem?_eq_none (l := s.promises) (by omega), List.getElem?_append_right (by omega)]
    cases q - s.promises.length <;> cases isReject <;> rfl

theorem statusOf_append {p : Nat} {status : Status ν κ} (promises : t.promises = s.promises ++ [({} : PromiseData ν κ)])
    (known : statusOf s p = some status) : statusOf t p = some status := by
  obtain ⟨data, found, same⟩ := Option.map_eq_some_iff.mp known
  have bound := (List.getElem?_eq_some_iff.mp found).1
  rw [statusOf, promises, List.getElem?_append_left bound, found, Option.map_some, same]

/-- A settled promise keeps its outcome. -/
theorem Move.settled_stays {p : Nat} {isReject : Bool} {value : Value ν κ} (move : Move s t)
    (settled : statusOf s p = some (.settled isReject value)) : statusOf t p = some (.settled isReject value) := by
  have other {q : Nat} {data : PromiseData ν κ} (found : s.promises[q]? = some data) (pending : data.status = .pending) :
      q ≠ p := by
    rintro rfl
    rw [statusOf, found, Option.map_some, pending] at settled
    simp at settled
  cases move with
  | control promises => rwa [statusOf, promises]
  | create promises => exact statusOf_append promises settled
  | settle q data _ _ found pending promises => rwa [statusOf_set found promises, if_neg (other found pending)]
  | wait q data next found pending promises => rwa [statusOf_set found promises, if_neg (other found pending)]
  | enqueue _ _ _ _ promises => rwa [statusOf, promises]

theorem Moves.settled_stays {p : Nat} {isReject : Bool} {value : Value ν κ} (moves : Moves s t)
    (settled : statusOf s p = some (.settled isReject value)) : statusOf t p = some (.settled isReject value) := by
  induction moves with
  | refl => exact settled
  | tail _ move ih => exact move.settled_stays ih

theorem Move.entries_grow (move : Move s t) : entries s <+: entries t := by
  cases move with
  | control _ _ same => exact ⟨[], by rw [same, List.append_nil]⟩
  | create _ _ same => exact ⟨[], by rw [same, List.append_nil]⟩
  | settle _ _ _ _ _ _ _ _ grown => exact ⟨_, grown.symm⟩
  | wait _ _ _ _ _ _ _ _ _ same => exact ⟨[], by rw [same, List.append_nil]⟩
  | enqueue _ _ _ _ _ _ grown => exact ⟨_, grown.symm⟩

theorem Moves.entries_grow (moves : Moves s t) : entries s <+: entries t := by
  induction moves with
  | refl => exact List.prefix_refl _
  | tail _ move ih => exact ih.trans move.entries_grow

theorem Accounted.entriesOf_append (accounted : Accounted s) (more : List Nat) (new : List (Nat × Bool × Value ν κ))
    (registered : t.registered = s.registered ++ more) (grown : entries t = entries s ++ new) (q : Nat) :
    entriesOf t q = entriesOf s q ++ new.filter fun entry => t.registered[entry.1]? = some q := by
  have old : ∀ entry ∈ entries s,
      decide (t.registered[entry.1]? = some q) = decide (s.registered[entry.1]? = some q) := by
    intro entry member
    obtain ⟨p, known, _⟩ := accounted.outcome _ _ _ member
    rw [registered, List.getElem?_append_left (List.getElem?_eq_some_iff.mp known).1]
  rw [entriesOf, grown, List.filter_append, List.filter_congr old]
  rfl

theorem Accounted.waiting_registered {p serial : Nat} (accounted : Accounted s) (isReject : Bool)
    (waits : serial ∈ waiting s p isReject) : s.registered[serial]? = some p := by
  have member : serial ∈ serialsOf s p := by
    rw [← accounted.serials p isReject]
    exact List.mem_append_right _ waits
  simpa using (List.mem_filter.mp member).2

theorem Accounted.control (accounted : Accounted s) (promises : t.promises = s.promises)
    (registered : t.registered = s.registered) (same : entries t = entries s) : Accounted t := by
  have status (q : Nat) : statusOf t q = statusOf s q := by rw [statusOf, statusOf, promises]
  have waits (q : Nat) (isReject : Bool) : waiting t q isReject = waiting s q isReject := by
    rw [waiting, waiting, promises]
  refine ⟨fun q isReject => ?_, fun q isReject => ?_, fun serial isReject value => ?_⟩
  · rw [status, waits]
    exact accounted.idle q isReject
  · rw [waits, entriesOf, serialsOf, registered, same]
    exact accounted.serials q isReject
  · simp only [registered, same, status]
    exact accounted.outcome serial isReject value

theorem Accounted.create (accounted : Accounted s) (promises : t.promises = s.promises ++ [({} : PromiseData ν κ)])
    (registered : t.registered = s.registered) (same : entries t = entries s) : Accounted t := by
  refine ⟨fun q isReject settled => ?_, fun q isReject => ?_, fun serial isReject value member => ?_⟩
  · rw [waiting_new promises]
    exact accounted.idle q isReject fun pending => settled (statusOf_append promises pending)
  · rw [waiting_new promises, entriesOf, serialsOf, registered, same]
    exact accounted.serials q isReject
  · rw [same] at member
    obtain ⟨p, known, status⟩ := accounted.outcome serial isReject value member
    exact ⟨p, by rw [registered, known], statusOf_append promises status⟩

theorem Accounted.settle {p : Nat} {data : PromiseData ν κ} {isReject : Bool} {value : Value ν κ}
    (accounted : Accounted s) (found : s.promises[p]? = some data) (pending : data.status = .pending)
    (promises : t.promises = s.promises.set p { status := .settled isReject value })
    (registered : t.registered = s.registered)
    (grown : entries t = entries s ++ (data.reactions isReject).map fun reaction =>
      (reaction.serial, isReject, value)) : Accounted t := by
  have status := statusOf_set found promises
  have waits := waiting_set found promises
  have nothing (rejected : Bool) :
      ({ status := .settled isReject value } : PromiseData ν κ).reactions rejected = [] := by
    cases rejected <;> rfl
  have mine (entry) (member : entry ∈ (data.reactions isReject).map fun reaction => (reaction.serial, isReject, value)) :
      t.registered[entry.1]? = some p ∧ entry.2 = (isReject, value) := by
    obtain ⟨reaction, here, rfl⟩ := List.mem_map.mp member
    rw [registered]
    refine ⟨accounted.waiting_registered isReject ?_, rfl⟩
    rw [waiting_found found]
    exact List.mem_map_of_mem here
  refine ⟨fun q rejected settled => ?_, fun q rejected => ?_, fun serial rejected result member => ?_⟩
  · rw [waits, nothing, List.map_nil]
    split
    · rfl
    · rename_i other
      rw [status, if_neg other] at settled
      exact accounted.idle q rejected settled
  · rw [accounted.entriesOf_append [] _ (by rw [registered, List.append_nil]) grown, waits, nothing]
    have before := accounted.serials q
    by_cases same : p = q
    · subst same
      have all : ∀ entry ∈ (data.reactions isReject).map fun reaction => (reaction.serial, isReject, value),
          decide (t.registered[entry.1]? = some p) = true := fun entry member => by simpa using (mine entry member).1
      rw [List.filter_eq_self.mpr all, if_pos rfl, List.map_nil, List.append_nil, List.map_append, List.map_map,
        serialsOf, registered]
      exact (waiting_found found isReject ▸ before isReject)
    · have none : ∀ entry ∈ (data.reactions isReject).map fun reaction => (reaction.serial, isReject, value),
          ¬ decide (t.registered[entry.1]? = some q) = true := by
        intro entry member
        rw [(mine entry member).1]
        simpa using same
      rw [List.filter_eq_nil_iff.mpr none, if_neg same, List.append_nil, serialsOf, registered]
      exact before rejected
  · rw [grown] at member
    rcases List.mem_append.mp member with old | new
    · obtain ⟨q, known, settled⟩ := accounted.outcome serial rejected result old
      refine ⟨q, by rw [registered, known], ?_⟩
      exact (Move.settle p data isReject value found pending promises registered grown).settled_stays settled
    · obtain ⟨known, outcome⟩ := mine _ new
      cases outcome
      exact ⟨p, known, by rw [status, if_pos rfl]⟩

theorem Accounted.wait {p : Nat} {data next : PromiseData ν κ} (accounted : Accounted s)
    (found : s.promises[p]? = some data) (pending : data.status = .pending)
    (promises : t.promises = s.promises.set p next) (still : next.status = .pending)
    (reactions : ∀ isReject, (next.reactions isReject).map Reaction.serial =
      (data.reactions isReject).map Reaction.serial ++ [s.registered.length])
    (registered : t.registered = s.registered ++ [p]) (same : entries t = entries s) : Accounted t := by
  have status := statusOf_set found promises
  refine ⟨fun q isReject settled => ?_, fun q isReject => ?_, fun serial isReject value member => ?_⟩
  · rw [status, still] at settled
    rw [waiting_set found promises]
    split at settled
    · exact absurd rfl settled
    · rename_i other
      rw [if_neg other]
      exact accounted.idle q isReject settled
  · rw [accounted.entriesOf_append _ [] registered (by rw [same, List.append_nil]), List.filter_nil,
      List.append_nil, waiting_set found promises, serialsOf_snoc registered, ← accounted.serials q isReject]
    split
    case isTrue here =>
      subst here
      rw [reactions, waiting_found found, List.append_assoc]
    case isFalse => rw [List.append_nil]
  · rw [same] at member
    obtain ⟨q, known, settled⟩ := accounted.outcome serial isReject value member
    refine ⟨q, ?_, (Move.wait p data next found pending promises still reactions registered same).settled_stays settled⟩
    rw [registered, List.getElem?_append_left (List.getElem?_eq_some_iff.mp known).1, known]

theorem Accounted.enqueue {p : Nat} {isReject : Bool} {value : Value ν κ} (accounted : Accounted s)
    (settled : statusOf s p = some (.settled isReject value)) (promises : t.promises = s.promises)
    (registered : t.registered = s.registered ++ [p])
    (grown : entries t = entries s ++ [(s.registered.length, isReject, value)]) : Accounted t := by
  have status (q : Nat) : statusOf t q = statusOf s q := by rw [statusOf, statusOf, promises]
  have waits (q : Nat) (isReject : Bool) : waiting t q isReject = waiting s q isReject := by
    rw [waiting, waiting, promises]
  have last : t.registered[s.registered.length]? = some p := by simp [registered]
  refine ⟨fun q rejected => ?_, fun q rejected => ?_, fun serial rejected result member => ?_⟩
  · rw [status, waits]
    exact accounted.idle q rejected
  · rw [accounted.entriesOf_append _ _ registered grown, waits, serialsOf_snoc registered, ← accounted.serials q rejected]
    by_cases same : p = q
    · subst same
      have idle := accounted.idle p rejected (by simp [settled])
      simp [last, idle]
    · simp [last, same]
  · simp only [status]
    rw [grown] at member
    rcases List.mem_append.mp member with old | new
    · obtain ⟨q, known, outcome⟩ := accounted.outcome serial rejected result old
      refine ⟨q, ?_, outcome⟩
      rw [registered, List.getElem?_append_left (List.getElem?_eq_some_iff.mp known).1, known]
    · cases List.mem_singleton.mp new
      exact ⟨p, last, settled⟩

theorem Accounted.move (accounted : Accounted s) (move : Move s t) : Accounted t := by
  cases move with
  | control promises registered same => exact accounted.control promises registered same
  | create promises registered same => exact accounted.create promises registered same
  | settle p data isReject value found pending promises registered grown =>
    exact accounted.settle found pending promises registered grown
  | wait p data next found pending promises still reactions registered same =>
    exact accounted.wait found pending promises still reactions registered same
  | enqueue p isReject value settled promises registered grown =>
    exact accounted.enqueue settled promises registered grown

theorem Accounted.moves (accounted : Accounted s) (moves : Moves s t) : Accounted t := by
  induction moves with
  | refl => exact accounted
  | tail _ move ih => exact ih.move move

theorem run_accounted (events : List (Event ν κ)) : Accounted (run events) := by
  have empty : Accounted ({} : State ν κ) := ⟨fun _ _ _ => rfl, fun _ _ => rfl, fun _ _ _ member => nomatch member⟩
  exact empty.moves (run_moves {} events)

theorem run_append (before after : List (Event ν κ)) : Moves (run before) (run (before ++ after)) := by
  rw [run, Run.final_append]
  exact run_moves _ after

/-- A settled promise owes each of its reactions the outcome. -/
theorem Accounted.entriesOf_settled {p : Nat} {isReject : Bool} {value : Value ν κ} (accounted : Accounted s)
    (settled : statusOf s p = some (.settled isReject value)) :
    entriesOf s p = (serialsOf s p).map fun serial => (serial, isReject, value) := by
  have idle := accounted.idle p isReject (by simp [settled])
  have serials := accounted.serials p isReject
  rw [idle, List.append_nil] at serials
  rw [← serials, List.map_map]
  refine (List.map_id _).symm.trans (List.map_congr_left fun entry member => ?_)
  obtain ⟨inside, mine⟩ := List.mem_filter.mp member
  obtain ⟨q, known, outcome⟩ := accounted.outcome entry.1 entry.2.1 entry.2.2 inside
  have same : q = p := by simpa [known] using mine
  rw [same, settled] at outcome
  injection outcome with outcome
  injection outcome with rejected result
  rw [Function.comp_apply, rejected, result]
  rfl

theorem Accounted.entriesOf_pending {p : Nat} (accounted : Accounted s) (pending : statusOf s p = some .pending) :
    entriesOf s p = [] := by
  refine List.filter_eq_nil_iff.mpr fun entry member mine => ?_
  obtain ⟨q, known, outcome⟩ := accounted.outcome entry.1 entry.2.1 entry.2.2 member
  have same : q = p := by simpa [known] using mine
  rw [same, pending] at outcome
  simp at outcome

/-- A settled promise keeps its outcome, and each of its reactions gets it once, in the order of the
    calls of `then`; when no job is left, all of them have started. -/
theorem settled_promise_reacts_once_in_order (before after : List (Event ν κ)) (p : Nat) (isReject : Bool)
    (value : Value ν κ) (settled : statusOf (run before) p = some (.settled isReject value)) :
    statusOf (run (before ++ after)) p = some (.settled isReject value) ∧
      entriesOf (run (before ++ after)) p =
        (serialsOf (run (before ++ after)) p).map (fun serial => (serial, isReject, value)) ∧
      ((run (before ++ after)).jobs = [] →
        ((run (before ++ after)).ran.filter fun entry => (run (before ++ after)).registered[entry.1]? = some p) =
          (serialsOf (run (before ++ after)) p).map fun serial => (serial, isReject, value)) := by
  have still := (run_append before after).settled_stays settled
  have owes := (run_accounted (before ++ after)).entriesOf_settled still
  refine ⟨still, owes, fun drained => ?_⟩
  rw [← owes, entriesOf, entries, drained, List.filterMap_nil, List.append_nil]

/-- A reaction before and one after the resolution. -/
theorem settled_promise_reacts_once_in_order_two :
    let before : List (Event Nat Nat) :=
      [.capability, .promiseThen 0 (.function 7) .undefined true, .call 0 false (.primitive 5)]
    let after : List (Event Nat Nat) := [.promiseThen 0 (.function 8) .undefined true, .execute, .returns .undefined, .execute]
    statusOf (run before) 0 = some (.settled false (.primitive 5)) ∧ (run (before ++ after)).jobs = [] ∧
      ((run (before ++ after)).ran.filter fun entry => (run (before ++ after)).registered[entry.1]? = some 0) =
        [(0, false, .primitive 5), (1, false, .primitive 5)] := by
  intro before after
  have settled : statusOf (run before) 0 = some (.settled false (.primitive 5)) := by decide
  have drained : (run (before ++ after)).jobs = [] := by decide
  refine ⟨settled, drained, ?_⟩
  exact (settled_promise_reacts_once_in_order before after 0 false (.primitive 5) settled).2.2 drained

/-- A reaction never overtakes another in the queue, and none of a pending promise is in it. -/
theorem reactions_start_in_queue_order (before after : List (Event ν κ)) :
    entries (run before) <+: entries (run (before ++ after)) ∧
      ∀ p, statusOf (run (before ++ after)) p = some .pending →
        entriesOf (run (before ++ after)) p = [] ∧
          ∀ isReject, waiting (run (before ++ after)) p isReject = serialsOf (run (before ++ after)) p := by
  have accounted := run_accounted (before ++ after)
  refine ⟨(run_append before after).entries_grow, fun p pending => ?_⟩
  have none := accounted.entriesOf_pending pending
  refine ⟨none, fun isReject => ?_⟩
  have serials := accounted.serials p isReject
  rwa [none, List.map_nil, List.nil_append] at serials

end Ledger

end Sano.Runtime.Promise
