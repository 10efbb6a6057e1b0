import Mathlib.Logic.Function.Basic
import Sano.Runtime.Observer
import Sano.Runtime.Text

namespace Sano.Runtime.Property

section Atoms

abbrev AtomTable := List (List UInt8)

def startsWithDigit : List UInt8 → Bool
  | [] => false
  | first :: _ => 0x30 ≤ first && first ≤ 0x39

/-- `JS_NewAtom`: `__JS_FindAtom` compares the UTF-8 bytes with the characters of the
    table. `none` is `JS_ATOM_NULL`. -/
def newAtom (atoms : AtomTable) (memory : List UInt8) : Option (List UInt16) :=
  let bytes := cString memory
  if !startsWithDigit bytes && atoms.contains bytes then some (bytes.map UInt8.toUInt16)
  else (newString memory).map JSString.units

def valueToAtom (key : List UInt16) : Option (List UInt16) := (newString (toNativeUtf8 key)).map JSString.units

def SameKey (atoms : AtomTable) (key : List UInt16) : Prop :=
  let bytes := cString (toNativeUtf8 key)
  startsWithDigit bytes = true ∨ bytes ∉ atoms ∨
    (∀ byte ∈ bytes, byte.toNat < 0x80) ∧ bytes.length ≤ stringLenMax

end Atoms

section Model

inductive Passed (κ : Type) where
  | engine (value : JSValue)
  | created (callback : κ) (ref : Nat)

/-- What a call of `JS_SetPropertyInternal` returns, what it makes of the heap, and by
    how many the references grow that the heap has to the value. -/
structure Answer (η : Type) where
  state : Int
  heap : η
  kept : Int

/-- `JS_SetPropertyInternal` with `JS_PROP_THROW`. Setters and proxies may run. -/
structure Objects (η : Type) where
  setPropertyInternal : η → Nat → Option (List UInt16) → JSValue → Answer η

def Objects.KeysApart {η : Type} (objects : Objects η) : Prop :=
  ∀ (left right : Option (List UInt16)) (value : JSValue), left ≠ right →
    ∃ heap object, (objects.setPropertyInternal heap object left value).heap ≠
      (objects.setPropertyInternal heap object right value).heap

variable {η κ : Type}

structure Shared (η κ : Type) where
  heap : η
  count : Int
  listeners : LinkedMap String κ

namespace Passed

def target : Passed κ → Option JSValue
  | .engine value => pointee value
  | .created _ ref => some (.object .function ref)

def isFunction : Passed κ → Bool
  | .engine (.object .function _) => true
  | .engine _ => false
  | .created _ _ => true

def callback : Passed κ → Option κ
  | .engine _ => none
  | .created callback _ => some callback

end Passed

def isCounted : JSValue → Bool
  | .string _ | .symbol _ | .bigInt _ | .bigFloat _ | .bigDecimal _ | .object _ _ => true
  | .undefined | .null | .bool _ | .int _ | .float64 _ | .exception => false

def dupValue (value : JSValue) (s : Shared η κ) : Shared η κ :=
  if isCounted value then { s with count := s.count + 1 } else s

def setInternal (objects : Objects η) (object : Nat) (atom : Option (List UInt16)) (value : JSValue) (s : Shared η κ) :
    Int × Shared η κ :=
  let answer := objects.setPropertyInternal s.heap object atom value
  (answer.state,
    { s with
      heap := answer.heap
      count := if isCounted value then s.count - 1 + answer.kept else s.count })

variable (objects : Objects η) (symbol : κ → String) (atoms : AtomTable)

/-- `none` is the end of the process, at a read through `nullptr`. -/
def setPropertyStr (object : Nat) (key : List UInt16) (value : Passed κ) (s : Shared η κ) :
    Option (Except Fault Bool × Shared η κ) := do
  let target ← value.target
  let (state, s) := setInternal objects object (newAtom atoms (toNativeUtf8 key)) target s
  if state = 1 then
    if value.isFunction then
      match value.callback with
      | some callback => return (.ok true, { s with listeners := s.listeners.insert (symbol callback) callback })
      | none => return (.error .typeError, s)
    else return (.ok true, s)
  else return (.ok false, s)

def setProperty (object : Nat) (key : List UInt16) (value : Passed κ) (s : Shared η κ) :
    Option (Except Fault Bool × Shared η κ) := do
  let target ← value.target
  let (state, s) := setInternal objects object (valueToAtom key) target (dupValue target s)
  return (.ok (state = 1), s)

def Interchangeable (key : List UInt16) (value : Passed κ) : Prop :=
  ∀ (object : Nat) (s : Shared η κ), ∃ result left right,
    setPropertyStr objects symbol atoms object key value s = some (.ok result, left) ∧
    setProperty objects object key value s = some (.ok result, right) ∧
    left.heap = right.heap ∧ left.count = right.count ∧
    ∀ callback, value.callback = some callback →
      left.listeners.get? (symbol callback) = right.listeners.get? (symbol callback)

def Passed.isPlain : Passed κ → Bool
  | .engine .null => false
  | .engine value => !isCounted value
  | .created _ _ => false

end Model

section Keys

theorem newAtom_eq_iff (atoms : AtomTable) (key : List UInt16) :
    newAtom atoms (toNativeUtf8 key) = valueToAtom key ↔ SameKey atoms key := by
  have bounded : ∀ point ∈ sent key, point < 0x110000 := fun point member => (scalar_sent key point member).1
  have lookup : newAtom atoms (toNativeUtf8 key) =
      if !startsWithDigit (Utf8.encode (sent key)) && atoms.contains (Utf8.encode (sent key)) then
        some ((Utf8.encode (sent key)).map UInt8.toUInt16)
      else valueToAtom key := by
    rw [← cString_toNativeUtf8]
    rfl
  unfold SameKey
  rw [lookup, cString_toNativeUtf8]
  by_cases digit : startsWithDigit (Utf8.encode (sent key)) = true
  · simp [digit]
  by_cases held : Utf8.encode (sent key) ∈ atoms
  · rw [if_pos (by simp [digit, held]), valueToAtom, newString_eq]
    simp only [digit, Bool.false_eq_true, false_or, held, not_true_eq_false]
    rw [Utf8.encode_ascii_iff bounded]
    constructor
    · intro same
      split at same
      · rename_i admitted
        have ascii := (Utf8.latin_iff _).mp (Option.some.inj same)
        refine ⟨ascii, ?_⟩
        rw [Utf8.length_encode_ascii ascii]
        exact takeWhile_ascii ascii ▸ admitted.1
      · cases same
    · rintro ⟨ascii, short⟩
      rw [Utf8.length_encode_ascii ascii] at short
      rw [if_pos (admitted_ascii ascii short), (Utf8.latin_iff _).mpr ascii]
      rfl
  · simp [held]

end Keys

section Agreement

variable {η κ : Type} {objects : Objects η} {symbol : κ → String} {atoms : AtomTable}

theorem setPropertyStr_spec {value : Passed κ} {target : JSValue} (found : value.target = some target) (object : Nat)
    (key : List UInt16) (s : Shared η κ) :
    ∃ result left, setPropertyStr objects symbol atoms object key value s = some (result, left) ∧
      left.heap = (objects.setPropertyInternal s.heap object (newAtom atoms (toNativeUtf8 key)) target).heap ∧
      left.count = (setInternal objects object (newAtom atoms (toNativeUtf8 key)) target s).2.count := by
  unfold setPropertyStr
  rw [found, Option.bind_eq_bind, Option.bind_some]
  simp only
  split
  · split
    · cases value.callback with
      | none => exact ⟨_, _, rfl, rfl, rfl⟩
      | some callback => exact ⟨_, _, rfl, rfl, rfl⟩
    · exact ⟨_, _, rfl, rfl, rfl⟩
  · exact ⟨_, _, rfl, rfl, rfl⟩

theorem setPropertyStr_plain {value : Passed κ} {target : JSValue} (found : value.target = some target)
    (data : value.isFunction = false) (object : Nat) (key : List UInt16) (s : Shared η κ) :
    setPropertyStr objects symbol atoms object key value s =
      some (.ok ((setInternal objects object (newAtom atoms (toNativeUtf8 key)) target s).1 = 1 : Bool),
        (setInternal objects object (newAtom atoms (toNativeUtf8 key)) target s).2) := by
  unfold setPropertyStr
  rw [found, Option.bind_eq_bind, Option.bind_some]
  simp only [data, Bool.false_eq_true, if_false]
  split
  · rename_i accepted
    simp [accepted]
  · rename_i refused
    simp [refused]

theorem setProperty_eq {value : Passed κ} {target : JSValue} (found : value.target = some target) (object : Nat)
    (key : List UInt16) (s : Shared η κ) :
    setProperty objects object key value s =
      some (.ok ((setInternal objects object (valueToAtom key) target (dupValue target s)).1 = 1 : Bool),
        (setInternal objects object (valueToAtom key) target (dupValue target s)).2) := by
  unfold setProperty
  rw [found]
  rfl

/-- A function for a callback is installed as the observer has it, by either route. -/
theorem created_installs (callback : κ) (ref object : Nat) (key : List UInt16) (s : Shared η κ) :
    (∃ accepted left, setPropertyStr objects symbol atoms object key (.created callback ref) s =
        some (.ok accepted, left) ∧
      left.listeners =
        (Observer.step symbol ⟨s.listeners, []⟩ (.install ⟨ref, callback⟩ .setPropertyStr accepted)).listeners) ∧
    ∃ accepted right, setProperty objects object key (.created callback ref) s = some (.ok accepted, right) ∧
      right.listeners =
        (Observer.step symbol ⟨s.listeners, []⟩ (.install ⟨ref, callback⟩ .setProperty accepted)).listeners := by
  constructor
  · unfold setPropertyStr
    rw [show (Passed.created callback ref).target = some (.object .function ref) from rfl, Option.bind_eq_bind,
      Option.bind_some]
    simp only [Passed.isFunction, Passed.callback, if_true]
    split
    · exact ⟨true, _, rfl, rfl⟩
    · exact ⟨false, _, rfl, rfl⟩
  · exact ⟨_, _, setProperty_eq rfl object key s, rfl⟩

theorem dupValue_heap (target : JSValue) (s : Shared η κ) : (dupValue target s).heap = s.heap := by
  unfold dupValue
  split <;> rfl

/-- The sibling that duplicates the value leaves one reference more. -/
theorem count_dupValue {target : JSValue} (counted : isCounted target = true) (object : Nat)
    (atom : Option (List UInt16)) (s : Shared η κ) :
    (setInternal objects object atom target (dupValue target s)).2.count =
      (setInternal objects object atom target s).2.count + 1 := by
  simp only [setInternal, dupValue, counted, if_true]
  omega

theorem target_of_plain {value : Passed κ} (plain : value.isPlain = true) :
    ∃ target, value.target = some target ∧ isCounted target = false ∧ value.isFunction = false ∧
      value.callback = none := by
  cases value with
  | created callback ref => simp [Passed.isPlain] at plain
  | engine value =>
    cases value with
    | null => simp [Passed.isPlain] at plain
    | object shape ref => simp [Passed.isPlain, isCounted] at plain
    | string units => simp [Passed.isPlain, isCounted] at plain
    | symbol ref => simp [Passed.isPlain, isCounted] at plain
    | bigInt ref => simp [Passed.isPlain, isCounted] at plain
    | bigFloat ref => simp [Passed.isPlain, isCounted] at plain
    | bigDecimal ref => simp [Passed.isPlain, isCounted] at plain
    | _ => exact ⟨_, rfl, rfl, rfl, rfl⟩

theorem plain_of_uncounted {value : Passed κ} {target : JSValue} (found : value.target = some target)
    (uncounted : isCounted target = false) : value.isPlain = true := by
  cases value with
  | created callback ref =>
    cases found
    cases uncounted
  | engine value =>
    cases value with
    | null => cases found
    | _ =>
      cases found
      simp [Passed.isPlain, uncounted]

theorem Interchangeable.found {key : List UInt16} {value : Passed κ} (heap : η)
    (agree : Interchangeable objects symbol atoms key value) : ∃ target, value.target = some target := by
  obtain ⟨result, left, right, stored, -⟩ := agree 0 ⟨heap, 0, ∅⟩
  cases found : value.target with
  | none => simp [setPropertyStr, found] at stored
  | some target => exact ⟨target, rfl⟩

/-- Agreement in a state, on the heap and the count. -/
theorem Interchangeable.effects {key : List UInt16} {value : Passed κ} {target : JSValue}
    (found : value.target = some target) (agree : Interchangeable objects symbol atoms key value) (object : Nat)
    (s : Shared η κ) :
    (objects.setPropertyInternal s.heap object (newAtom atoms (toNativeUtf8 key)) target).heap =
        (objects.setPropertyInternal s.heap object (valueToAtom key) target).heap ∧
      (setInternal objects object (newAtom atoms (toNativeUtf8 key)) target s).2.count =
        (setInternal objects object (valueToAtom key) target (dupValue target s)).2.count := by
  obtain ⟨result, left, right, stored, kept, heaps, counts, -⟩ := agree object s
  obtain ⟨outcome, other, runs, heap, count⟩ :=
    @setPropertyStr_spec η κ objects symbol atoms value target found object key s
  rw [stored] at runs
  cases runs
  rw [setProperty_eq found] at kept
  obtain ⟨-, rfl⟩ := Prod.mk.inj (Option.some.inj kept)
  refine ⟨?_, count.symm.trans counts⟩
  rw [← heap, heaps, ← dupValue_heap target s]
  rfl

/-- The two setters agree on exactly the values without references, null apart, and
    the keys that the atom table does not misread. -/
theorem setters_agree_iff (apart : objects.KeysApart) (key : List UInt16) (value : Passed κ) :
    Interchangeable objects symbol atoms key value ↔ value.isPlain = true ∧ SameKey atoms key := by
  rw [← newAtom_eq_iff]
  constructor
  · intro agree
    obtain ⟨heap, _, _⟩ := apart none (some []) .undefined (by simp)
    obtain ⟨target, found⟩ := agree.found heap
    have same : newAtom atoms (toNativeUtf8 key) = valueToAtom key := by
      by_contra differ
      obtain ⟨heap, object, distinct⟩ := apart _ _ target differ
      exact distinct (agree.effects found object ⟨heap, 0, ∅⟩).1
    refine ⟨plain_of_uncounted found ?_, same⟩
    by_contra counted
    have counts := (agree.effects found 0 ⟨heap, 0, ∅⟩).2
    rw [same, count_dupValue (by simpa using counted)] at counts
    omega
  · rintro ⟨plain, same⟩ object s
    obtain ⟨target, found, uncounted, data, none⟩ := target_of_plain plain
    have still : dupValue target s = s := by simp [dupValue, uncounted]
    refine ⟨_, _, _, setPropertyStr_plain found data object key s, ?_, rfl, rfl, fun callback carried => ?_⟩
    · rw [setProperty_eq found, still, same]
    · exact absurd (none.symm.trans carried) (by simp)

def tables : Objects (Nat → Option (List UInt16) → Option JSValue) where
  setPropertyInternal heap object atom value :=
    { state := 1, heap := Function.update heap object (Function.update (heap object) atom (some value)), kept := 1 }

theorem tables_apart : tables.KeysApart := by
  intro left right value differ
  refine ⟨fun _ _ => none, 0, fun same => ?_⟩
  have := congrFun (congrFun same 0) left
  simp [tables, differ] at this

theorem setters_agree_iff_number :
    (Passed.engine (.int 7) : Passed Nat).isPlain = true ∧
      Interchangeable tables (fun callback : Nat => toString callback) [[0x61]] [0x61] (.engine (.int 7)) :=
  ⟨rfl, (setters_agree_iff tables_apart _ _).mpr ⟨rfl, by unfold SameKey; decide +kernel⟩⟩

/-- A function that JS has made: `setPropertyStr` stores it and then throws, `setProperty`
    returns true and leaves a reference more. -/
theorem js_function_throws :
    (setPropertyStr tables (fun callback : Nat => toString callback) [] 0 [0x61] (.engine (.object .function 5))
        ⟨fun _ _ => none, 1, ∅⟩).map (fun done => (done.1, done.2.count)) = some (.error .typeError, 1) ∧
      (setProperty tables 0 [0x61] (.engine (.object .function 5) : Passed Nat)
        ⟨fun _ _ => none, 1, ∅⟩).map (fun done => (done.1, done.2.count)) = some (.ok true, 2) := by
  decide +kernel

end Agreement

end Sano.Runtime.Property
