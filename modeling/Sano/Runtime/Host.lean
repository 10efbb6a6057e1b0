import Sano.Base.Outcome
import Sano.Runtime.Value

namespace Sano.Runtime

section State

inductive Plugin where
  | interval
  | timeout
deriving DecidableEq

/-- `timer` and `callback` are positions: the timers and the references that
    `createTimer` takes are numbered as they come. -/
structure Clock where
  timer : Nat
  callback : Nat
deriving DecidableEq

structure Timer where
  plugin : Plugin
  duration : Int
  callback : Nat
  id : Int
  active : Bool := true
deriving DecidableEq

/-- `retained` counts the references taken by `dupValue` in `createTimer`,
    `released` lists those whose `free` was called. `channel` is the function
    that JS hands to the bridge. -/
structure HostState where
  timers : List Timer := []
  intervals : LinkedMap Int Clock := ∅
  timeouts : LinkedMap Int Clock := ∅
  retained : Nat := 0
  released : List Nat := []
  channel : Option Nat := none

def HostState.clocks (s : HostState) : Plugin → LinkedMap Int Clock
  | .interval => s.intervals
  | .timeout => s.timeouts

def HostState.withClocks (s : HostState) (clocks : LinkedMap Int Clock) : Plugin → HostState
  | .interval => { s with intervals := clocks }
  | .timeout => { s with timeouts := clocks }

abbrev Call := EStateM Fault HostState

end State

section Bodies

def parseDuration : Option Handle → Call Int
  | some (.jsFloat bits) =>
    match bits.toInt with
    | some value => pure value
    | none => throw .unsupported
  | some (.jsInt value) => pure value
  | _ => pure 0

def dupValue : Call Nat := fun s => .ok s.retained { s with retained := s.retained + 1 }

def startTimer (timer : Timer) : Call Nat := fun s =>
  .ok s.timers.length { s with timers := s.timers ++ [timer] }

def putClock (plugin : Plugin) (key : Int) (clock : Clock) : Call Unit := fun s =>
  .ok () (s.withClocks ((s.clocks plugin).insert key clock) plugin)

/-- `createTimer` of both plugins. The reading is the clock of the timeouts or
    the hash code of the interval's timer: it becomes the key. -/
def createTimer (plugin : Plugin) (reading : Int) (time : Option Handle) : Call Handle := do
  let callback ← dupValue
  let duration ← parseDuration time
  let id := int64Value reading
  let timer ← startTimer { plugin, duration, callback, id }
  putClock plugin reading ⟨timer, callback⟩
  return .jsInt id

def cancel (s : HostState) (plugin : Plugin) (key : Int) (clock : Clock) : HostState :=
  { s with
    timers := s.timers.modify clock.timer fun timer => { timer with active := false }
    released := s.released ++ [clock.callback] }.withClocks ((s.clocks plugin).remove key) plugin

def clear (plugin : Plugin) (data : Option Handle) : Call Unit := do
  let id ← parseDuration data
  fun s =>
    match (s.clocks plugin).get? id with
    | some clock => .ok () (cancel s plugin id clock)
    | none => .ok () s

def decodeText (text : Option JSString) : Call (List Nat) :=
  match text with
  | none => throw .unsupported
  | some text =>
    match toDartString text with
    | .ok read => pure read
    | .error fault => throw fault

def arrayLength (engine : Engine) (list : Nat) : Call Int :=
  match fromJSValue (engine.length list) with
  | .jsInt value => pure value
  | _ => throw .typeError

def println (engine : Engine) (type : JSString) (list : Nat) : Call Unit := do
  let length ← arrayLength engine list
  if length > 0 then
    let _ ← decodeText (some type)
    let _ ← decodeText (engine.text list)

abbrev Listeners := List Nat → Option (Option Handle → Option Handle → Option Handle)

def initializeName : List Nat := "__initialize__".toList.map Char.toNat

def isFunction : Option Handle → Bool
  | some (.jsFunction _) => true
  | _ => false

def bridgeChannel (listeners : Listeners) (method : JSString) (args callback : Option Handle) :
    Call (Option Handle) := do
  let name ← decodeText (some method)
  if name = initializeName then
    match callback with
    | some (.jsFunction channel) => fun s => .ok none { s with channel := some channel }
    | _ => throw .typeError
  else
    let shifted := isFunction args && callback.isNone
    let callback := if shifted then args else callback
    let args := if shifted then none else args
    match listeners name with
    | some handle => return handle args callback
    | none => return none

end Bodies

section Dispatch

inductive Host where
  | println
  | setInterval
  | clearInterval
  | setTimeout
  | clearTimeout
  | bridge
deriving DecidableEq

inductive Param where
  | jsObject
  | jsString
  | jsArray
  | jsFunction
deriving DecidableEq

def Param.admits : Param → Handle → Bool
  | .jsObject, _ => true
  | .jsString, .jsString _ => true
  | .jsArray, .jsArray _ => true
  | .jsFunction, .jsFunction _ => true
  | _, _ => false

def Host.params : Host → List Param × List Param
  | .println => ([.jsString, .jsArray], [])
  | .setInterval => ([.jsFunction], [.jsObject])
  | .clearInterval => ([.jsObject], [])
  | .setTimeout => ([.jsFunction], [.jsObject])
  | .clearTimeout => ([.jsObject], [])
  | .bridge => ([.jsString], [.jsObject, .jsFunction])

def checkArgs (params : List Param × List Param) (args : List Handle) : Call Unit :=
  if args.length < params.1.length ∨ params.1.length + params.2.length < args.length then throw .noSuchMethod
  else if ((params.1 ++ params.2).zip args).all fun (param, arg) => param.admits arg then pure ()
  else throw .typeError

variable (engine : Engine) (listeners : Listeners)

def body (reading : Int) : Host → List Handle → Call (Option Handle)
  | .println, [.jsString type, .jsArray list] => do println engine type list; return none
  | .setInterval, _ :: rest => do return some (← createTimer .interval reading rest.head?)
  | .clearInterval, data :: _ => do clear .interval (some data); return none
  | .setTimeout, _ :: rest => do return some (← createTimer .timeout reading rest.head?)
  | .clearTimeout, data :: _ => do clear .timeout (some data); return none
  | .bridge, .jsString method :: rest => bridgeChannel listeners method rest[0]? rest[1]?
  | _, _ => throw .noSuchMethod

def installed : List Host := [.println, .setInterval, .clearInterval, .setTimeout, .clearTimeout, .bridge]

/-- `Observer._listeners`: `symbol` is the hash code of each callback. A later
    function with the same symbol takes the place of an earlier one. -/
def observer (symbol : Host → String) : LinkedMap String Host :=
  LinkedMap.ofList (installed.map fun host => (symbol host, host))

def apply (reading : Int) (host : Host) (args : List Handle) : Call Handle := do
  checkArgs host.params args
  let result ← body engine listeners reading host args
  return result.getD .jsUndefined

def emit (symbol : Host → String) (reading : Int) (name : String) (args : List Handle) : Call Handle :=
  match (observer symbol).get? name with
  | some host => apply engine listeners reading host args
  | none => return .jsUndefined

/-- `Runtime._channel`, the native callback: what `emit` returns is dropped. -/
def channel (symbol : Host → String) (reading : Int) (host : Host) (args : List JSValue) : Call JSValue := do
  let _ ← emit engine listeners symbol reading (symbol host) (args.map fromJSValue)
  return .undefined

end Dispatch

section Acceptance

def JSValue.bounded : JSValue → Bool
  | .float64 bits => bits.isFinite
  | _ => true

def legible (text : JSString) : Bool := (toDartString text).isOk

def acceptsTimer : List JSValue → Bool
  | [.object .function _] => true
  | [.object .function _, time] => time.bounded
  | _ => false

def acceptsClear : List JSValue → Bool
  | [id] => id.bounded
  | _ => false

def acceptsPrintln (engine : Engine) : List JSValue → Bool
  | [.string type, .object .array list] =>
    match engine.length list with
    | .int length => length.toInt ≤ 0 || (legible type && (engine.text list).any legible)
    | _ => false
  | _ => false

def acceptsBridge : List JSValue → Bool
  | [.string method] => legible method && (toDartString method).toOption != some initializeName
  | [.string method, _] => legible method && (toDartString method).toOption != some initializeName
  | [.string method, _, .object .function _] => legible method
  | _ => false

def accepts (engine : Engine) : Host → List JSValue → Bool
  | .println => acceptsPrintln engine
  | .setInterval => acceptsTimer
  | .clearInterval => acceptsClear
  | .setTimeout => acceptsTimer
  | .clearTimeout => acceptsClear
  | .bridge => acceptsBridge

def completes {α : Type} (call : Call α) (s : HostState) : Bool := returns (fun _ _ => true) (call s)

variable {α β : Type}

@[simp]
theorem completes_pure (value : α) (s : HostState) : completes (pure value) s = true := rfl

@[simp]
theorem completes_throw (fault : Fault) (s : HostState) : completes (throw fault : Call α) s = false := rfl

theorem completes_bind_of_ok {call : Call α} {next : α → Call β} {s t : HostState} {value : α}
    (ended : call s = .ok value t) : completes (call >>= next) s = completes (next value) t := by
  simp [completes, Bind.bind, EStateM.bind, ended]

theorem completes_bind_of_error {call : Call α} {next : α → Call β} {s t : HostState} {fault : Fault}
    (ended : call s = .error fault t) : completes (call >>= next) s = false := by
  simp [completes, Bind.bind, EStateM.bind, ended, returns]

theorem completes_bind {call : Call α} {next : α → Call β} (total : ∀ value s, completes (next value) s = true)
    (s : HostState) : completes (call >>= next) s = completes call s := by
  cases ended : call s with
  | ok value t => rw [completes_bind_of_ok ended, total]; simp [completes, ended, returns]
  | error fault t => rw [completes_bind_of_error ended]; simp [completes, ended, returns]

theorem parseDuration_completes (value : JSValue) (s : HostState) :
    completes (parseDuration (some (fromJSValue value))) s = value.bounded := by
  cases value with
  | float64 bits =>
    simp only [fromJSValue, parseDuration, JSValue.bounded, ← Float64.toInt_isSome]
    cases bits.toInt with
    | none => simp
    | some value => simp
  | object shape ref => cases shape <;> rfl
  | _ => rfl

theorem createTimer_completes (plugin : Plugin) (reading : Int) (time : Option Handle) (s : HostState) :
    completes (createTimer plugin reading time) s =
      completes (parseDuration time) { s with retained := s.retained + 1 } := by
  unfold createTimer
  rw [completes_bind_of_ok (show dupValue s = .ok s.retained { s with retained := s.retained + 1 } from rfl)]
  exact completes_bind (fun _ _ => rfl) _

theorem clear_completes (plugin : Plugin) (data : Option Handle) (s : HostState) :
    completes (clear plugin data) s = completes (parseDuration data) s := by
  unfold clear
  refine completes_bind (fun id t => ?_) s
  simp only [completes]
  split <;> rfl

theorem decodeText_completes (text : Option JSString) (s : HostState) :
    completes (decodeText text) s = text.any legible := by
  cases text with
  | none => rfl
  | some text =>
    simp only [decodeText, Option.any_some, legible]
    cases toDartString text with
    | ok read => rfl
    | error fault => rfl

def fits (params : List Param × List Param) (args : List Handle) : Bool :=
  !(args.length < params.1.length ∨ params.1.length + params.2.length < args.length : Bool) &&
    ((params.1 ++ params.2).zip args).all fun (param, arg) => param.admits arg

theorem checkArgs_completes (params : List Param × List Param) (args : List Handle) (next : Unit → Call α)
    (s : HostState) : completes (checkArgs params args >>= next) s = (fits params args && completes (next ()) s) := by
  unfold checkArgs fits
  by_cases arity : args.length < params.1.length ∨ params.1.length + params.2.length < args.length
  · simp only [arity, if_true, decide_true, Bool.not_true, Bool.false_and]
    rfl
  · by_cases types : ((params.1 ++ params.2).zip args).all (fun (param, arg) => param.admits arg) = true
    · simp only [arity, types, if_false, if_true, decide_false, Bool.not_false, Bool.true_and]
      rfl
    · simp only [arity, types, if_false, Bool.and_false, Bool.false_and]
      rfl

variable (engine : Engine) (listeners : Listeners) (reading : Int)

theorem apply_completes (host : Host) (args : List Handle) (s : HostState) :
    completes (apply engine listeners reading host args) s =
      (fits host.params args && completes (body engine listeners reading host args) s) := by
  unfold apply
  rw [checkArgs_completes]
  congr 1
  exact completes_bind (fun _ _ => rfl) s

theorem create_accepted (plugin : Plugin) (args : List JSValue) (s : HostState) :
    (fits ([.jsFunction], [.jsObject]) (args.map fromJSValue) &&
      completes (createTimer plugin reading ((args.map fromJSValue).drop 1).head?) s) = acceptsTimer args := by
  rw [createTimer_completes]
  match args with
  | [] => rfl
  | [callback] =>
    cases callback with
    | object shape ref => cases shape <;> rfl
    | _ => rfl
  | [callback, time] =>
    have bounded := parseDuration_completes time { s with retained := s.retained + 1 }
    cases callback with
    | object shape ref =>
      cases shape with
      | function => exact bounded
      | _ => rfl
    | _ => rfl
  | callback :: time :: more :: rest =>
    have rejected : fits ([.jsFunction], [.jsObject]) ((callback :: time :: more :: rest).map fromJSValue) = false := by
      simp [fits]
    rw [rejected]
    cases callback with
    | object shape ref => cases shape <;> rfl
    | _ => rfl

theorem clear_accepted (plugin : Plugin) (args : List JSValue) (s : HostState) :
    (fits ([.jsObject], []) (args.map fromJSValue) &&
      completes (clear plugin (args.map fromJSValue).head?) s) = acceptsClear args := by
  rw [clear_completes]
  match args with
  | [] => rfl
  | [id] => exact parseDuration_completes id s
  | id :: more :: rest =>
    have rejected : fits ([.jsObject], []) ((id :: more :: rest).map fromJSValue) = false := by simp [fits]
    rw [rejected]
    rfl

theorem println_completes (type : JSString) (list : Nat) (s : HostState) :
    completes (println engine type list) s = acceptsPrintln engine [.string type, .object .array list] := by
  simp only [println, arrayLength, acceptsPrintln]
  cases engine.length list with
  | int length =>
    simp only [fromJSValue, pure_bind]
    by_cases empty : length.toInt ≤ 0
    · simp [empty, Int.not_lt.mpr empty]
    · simp only [empty, decide_false, Bool.false_or, gt_iff_lt, Int.not_le.mp empty, if_true]
      have first := decodeText_completes (some type) s
      cases ended : decodeText (some type) s with
      | error fault t =>
        rw [completes_bind_of_error ended]
        simp only [completes, ended, returns, Option.any_some] at first
        simp [← first]
      | ok read t =>
        rw [completes_bind_of_ok ended, completes_bind fun _ _ => rfl, decodeText_completes]
        simp only [completes, ended, returns, Option.any_some] at first
        simp [← first]
  | object shape ref => cases shape <;> rfl
  | _ => rfl

theorem bridge_completes (method : JSString) (args callback : Option Handle) (s : HostState) :
    completes (bridgeChannel listeners method args callback) s =
      (legible method && ((toDartString method).toOption != some initializeName || isFunction callback)) := by
  unfold bridgeChannel
  cases known : toDartString method with
  | error fault =>
    have failed : decodeText (some method) s = .error fault s := by simp [decodeText, known]; rfl
    rw [completes_bind_of_error failed]
    simp [legible, known, Except.isOk, Except.toBool]
  | ok name =>
    have read : decodeText (some method) s = .ok name s := by simp [decodeText, known]; rfl
    rw [completes_bind_of_ok read]
    simp only [legible, known, Except.isOk, Except.toBool, Except.toOption, Bool.true_and]
    by_cases reserved : name = initializeName
    · simp only [reserved, if_true, bne_self_eq_false, Bool.false_or]
      cases callback with
      | none => rfl
      | some handle => cases handle <;> rfl
    · have other : (some name != some initializeName) = true := by simpa using reserved
      simp only [reserved, if_false, other, Bool.true_or]
      cases listeners name <;> rfl

theorem println_accepted (args : List JSValue) (s : HostState) :
    (fits Host.println.params (args.map fromJSValue) &&
      completes (body engine listeners reading .println (args.map fromJSValue)) s) = acceptsPrintln engine args := by
  match args with
  | [] => rfl
  | [type] => cases type <;> rfl
  | [type, list] =>
    cases type with
    | string text =>
      cases list with
      | object shape ref =>
        cases shape with
        | array =>
          rw [← println_completes engine text ref s]
          exact completes_bind (fun _ _ => rfl) s
        | _ => rfl
      | _ => rfl
    | object shape ref => cases shape <;> rfl
    | _ => rfl
  | type :: list :: more :: rest =>
    have rejected : fits Host.println.params ((type :: list :: more :: rest).map fromJSValue) = false := by
      simp [fits, Host.params]
    rw [rejected]
    cases type with
    | string text =>
      cases list with
      | object shape ref => cases shape <;> rfl
      | _ => rfl
    | _ => rfl

theorem bridge_accepted (args : List JSValue) (s : HostState) :
    (fits Host.bridge.params (args.map fromJSValue) &&
      completes (body engine listeners reading .bridge (args.map fromJSValue)) s) = acceptsBridge args := by
  match args with
  | [] => rfl
  | [method] =>
    cases method with
    | string text =>
      have runs := bridge_completes listeners text none none s
      simp only [isFunction, Bool.or_false] at runs
      exact runs
    | object shape ref => cases shape <;> rfl
    | _ => rfl
  | [method, args] =>
    cases method with
    | string text =>
      have runs := bridge_completes listeners text (some (fromJSValue args)) none s
      simp only [isFunction, Bool.or_false] at runs
      exact runs
    | object shape ref => cases shape <;> rfl
    | _ => rfl
  | [method, args, callback] =>
    cases method with
    | string text =>
      cases callback with
      | object shape ref =>
        cases shape with
        | function =>
          have runs := bridge_completes listeners text (some (fromJSValue args)) (some (.jsFunction ref)) s
          simp only [isFunction, Bool.or_true, Bool.and_true] at runs
          exact runs
        | _ => rfl
      | _ => rfl
    | object shape ref => cases shape <;> rfl
    | _ => rfl
  | method :: args :: callback :: more :: rest =>
    have rejected : fits Host.bridge.params ((method :: args :: callback :: more :: rest).map fromJSValue) = false := by
      simp [fits, Host.params]
    rw [rejected]
    cases method with
    | string text =>
      cases callback with
      | object shape ref => cases shape <;> rfl
      | _ => rfl
    | _ => rfl

theorem apply_accepted (host : Host) (args : List JSValue) (s : HostState) :
    completes (apply engine listeners reading host (args.map fromJSValue)) s = accepts engine host args := by
  rw [apply_completes]
  cases host with
  | setInterval =>
    rw [accepts, ← create_accepted reading .interval args s]
    cases args with
    | nil => rfl
    | cons callback rest =>
      congr 1
      exact completes_bind (fun _ _ => rfl) s
  | setTimeout =>
    rw [accepts, ← create_accepted reading .timeout args s]
    cases args with
    | nil => rfl
    | cons callback rest =>
      congr 1
      exact completes_bind (fun _ _ => rfl) s
  | clearInterval =>
    rw [accepts, ← clear_accepted .interval args s]
    cases args with
    | nil => rfl
    | cons data rest =>
      congr 1
      exact completes_bind (fun _ _ => rfl) s
  | clearTimeout =>
    rw [accepts, ← clear_accepted .timeout args s]
    cases args with
    | nil => rfl
    | cons data rest =>
      congr 1
      exact completes_bind (fun _ _ => rfl) s
  | println => exact println_accepted engine listeners reading args s
  | bridge => exact bridge_accepted engine listeners reading args s

def resolve (symbol : Host → String) (host : Host) : Host := ((observer symbol).get? (symbol host)).getD host

theorem observer_get (symbol : Host → String) (host : Host) :
    (observer symbol).get? (symbol host) = some (resolve symbol host) := by
  have listed : symbol host ∈ (installed.map fun host => (symbol host, host)).map Prod.fst := by
    cases host <;> simp [installed]
  obtain ⟨target, found⟩ := Option.isSome_iff_exists.mp (LinkedMap.ofList_isSome listed)
  have held : (observer symbol).get? (symbol host) = some target := found
  simp [resolve, held]

/-- The native callback ends without a Dart exception exactly on the argument
    lists that the callback it reaches is made for. -/
theorem channel_completes_iff (symbol : Host → String) (host : Host) (args : List JSValue) (s : HostState) :
    (∃ t, channel engine listeners symbol reading host args s = .ok .undefined t) ↔
      accepts engine (resolve symbol host) args = true := by
  rw [← apply_accepted engine listeners reading (resolve symbol host) args s]
  unfold channel emit
  rw [observer_get]
  simp only [completes, Bind.bind, EStateM.bind]
  cases ended : apply engine listeners reading (resolve symbol host) (args.map fromJSValue) s with
  | ok result t => simp [returns, pure, EStateM.pure]
  | error fault t => simp [returns]

def plainEngine : Engine := ⟨fun _ => .int 0, fun _ => none⟩

def plainSymbol : Host → String
  | .println => "1"
  | .setInterval => "2"
  | .clearInterval => "3"
  | .setTimeout => "4"
  | .clearTimeout => "5"
  | .bridge => "6"

/-- `setTimeout(f, NaN)`. -/
theorem nan_delay_throws : ¬ ∃ t, channel plainEngine (fun _ => none) plainSymbol 1 .setTimeout
    [.object .function 0, .float64 0x7ff8000000000000#64] {} = .ok .undefined t := by
  have evaluated : returns (fun _ _ => true) (channel plainEngine (fun _ => none) plainSymbol 1 .setTimeout
      [.object .function 0, .float64 0x7ff8000000000000#64] {}) = false := by decide +kernel
  rintro ⟨t, ended⟩
  rw [ended] at evaluated
  cases evaluated

end Acceptance

end Sano.Runtime
