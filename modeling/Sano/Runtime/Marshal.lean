import Mathlib.Logic.Function.Basic
import Sano.Runtime.Layout

namespace Sano.Runtime

section Model

structure Wrapped where
  handleClass : HandleClass
  pointer : Nat
deriving DecidableEq

def wrap (undefined pointer : Nat) : HandleClass → Wrapped
  | .jsUndefined => ⟨.jsUndefined, undefined⟩
  | .jsNull => ⟨.jsNull, 0⟩
  | handleClass => ⟨handleClass, pointer⟩

def store (memory : Memory) (address : Nat) (word : BitVec 64) : Option Memory :=
  match memory address with
  | some _ => some (Function.update memory address (some word))
  | none => none

def setValueAt (memory : Memory) (data index value : Nat) : Option Memory := do
  let u ← memory value
  let tag ← memory (value + 8)
  let memory ← store memory (data + 16 * index) u
  store memory (data + 16 * index + 8) tag

def calloc (memory : Memory) (data bytes : Nat) : Memory := fun address =>
  if data ≤ address ∧ address < data + bytes then some 0#64 else memory address

def setValues (data : Nat) : Nat → List Wrapped → Memory → Option Memory
  | _, [], memory => some memory
  | index, handle :: rest, memory => do
    let memory ← setValueAt memory data index handle.pointer
    setValues data (index + 1) rest memory

def blockSize (count : Nat) : Nat := count * 16 * 8

def formatArgs (memory : Memory) (data : Nat) (args : List Wrapped) : Option Memory :=
  setValues data 0 args (calloc memory data (blockSize args.length))

structure Callback extends Arguments .ptr64 where
  undefined : Nat
  data : Nat
  unmapped : memory 0 = none
  undefined_held : Holds .ptr64 place memory undefined .undefined
  argv_apart : argv + 16 * values.length ≤ data ∨ data + blockSize values.length ≤ argv
  undefined_apart : undefined + 16 ≤ data ∨ data + blockSize values.length ≤ undefined

namespace Callback

variable (callback : Callback)

def wrapAt (value : JSValue) (index : Nat) : Option Wrapped :=
  (refTag callback.memory (callback.address index)).map fun tag =>
    wrap callback.undefined (callback.address index) (classFor tag value)

def generate : Nat → List JSValue → Option (List Wrapped)
  | _, [] => some []
  | index, value :: rest => do
    let handle ← callback.wrapAt value index
    let handles ← generate (index + 1) rest
    return handle :: handles

def channel : Option (List Wrapped) := callback.generate 0 callback.values

def Lossless : Prop :=
  ∃ (handles : List Wrapped) (memory : Memory),
    callback.channel = some handles ∧ handles.length = callback.values.length ∧
    (∀ (index : Nat) (handle : Wrapped) (value : JSValue), handles[index]? = some handle →
      callback.values[index]? = some value →
      handle.pointer ≠ 0 ∧ Holds .ptr64 callback.place callback.memory handle.pointer value) ∧
    formatArgs callback.memory callback.data handles = some memory ∧
    ∀ index value, callback.values[index]? = some value →
      Holds .ptr64 callback.place memory (callback.data + 16 * index) value

end Callback

end Model

section Handles

namespace Callback

variable (callback : Callback)

def pointerOf (value : JSValue) (index : Nat) : Nat :=
  match value with
  | .undefined => callback.undefined
  | .null => 0
  | _ => callback.address index

theorem wrap_pointer (value : JSValue) (index : Nat) :
    (wrap callback.undefined (callback.address index) (fromJSValue value).handleClass).pointer =
      callback.pointerOf value index := by
  cases value with
  | object shape ref => cases shape <;> rfl
  | _ => rfl

theorem wrapAt_eq {value : JSValue} {index : Nat} (there : callback.values[index]? = some value) :
    callback.wrapAt value index =
      some (wrap callback.undefined (callback.address index) (fromJSValue value).handleClass) := by
  have reads : refTag callback.memory (callback.address index) = some value.tag :=
    (Arguments.refTag_eq_iff _ _ value).mpr (callback.held index value there).2
  rw [wrapAt, reads, Option.map_some, classFor_tag]

theorem generate_eq (index : Nat) (rest : List JSValue) (there : callback.values.drop index = rest) :
    ∃ handles, callback.generate index rest = some handles ∧ handles.length = rest.length ∧
      ∀ offset value, rest[offset]? = some value →
        (handles[offset]?).map Wrapped.pointer = some (callback.pointerOf value (index + offset)) := by
  induction rest generalizing index with
  | nil => exact ⟨[], rfl, rfl, fun _ _ none => by simp at none⟩
  | cons value rest ih =>
    have here : callback.values[index]? = some value := by
      rw [← List.head?_drop, there, List.head?_cons]
    have later : callback.values.drop (index + 1) = rest := by
      rw [← List.tail_drop, there, List.tail_cons]
    rcases ih (index + 1) later with ⟨handles, made, length, points⟩
    refine ⟨wrap callback.undefined (callback.address index) (fromJSValue value).handleClass :: handles, ?_, ?_, ?_⟩
    · simp [generate, callback.wrapAt_eq here, made]
    · simp [length]
    · intro offset other held
      cases offset with
      | zero =>
        cases held
        simp [callback.wrap_pointer]
      | succ offset =>
        have := points offset other held
        rwa [List.getElem?_cons_succ, show index + (offset + 1) = index + 1 + offset by omega]

theorem channel_eq :
    ∃ handles, callback.channel = some handles ∧ handles.length = callback.values.length ∧
      ∀ index value, callback.values[index]? = some value →
        (handles[index]?).map Wrapped.pointer = some (callback.pointerOf value index) := by
  rcases callback.generate_eq 0 callback.values rfl with ⟨handles, made, length, points⟩
  refine ⟨handles, made, length, fun index value there => ?_⟩
  have := points index value there
  rwa [Nat.zero_add] at this

/-- Only the handle of null does not point to its value. -/
theorem pointerOf_holds {value : JSValue} {index : Nat} (there : callback.values[index]? = some value)
    (present : value ≠ .null) :
    Holds .ptr64 callback.place callback.memory (callback.pointerOf value index) value ∧
      callback.pointerOf value index ≠ 0 := by
  have holds : Holds .ptr64 callback.place callback.memory (callback.pointerOf value index) value := by
    cases value with
    | undefined => exact callback.undefined_held
    | null => exact absurd rfl present
    | _ => exact callback.held index _ there
  refine ⟨holds, fun zero => ?_⟩
  rw [zero] at holds
  have mapped := holds.1
  rw [callback.unmapped] at mapped
  cases mapped

end Callback

end Handles

section Copies

theorem store_mapped {memory : Memory} {address : Nat} (mapped : memory address ≠ none) (word : BitVec 64) :
    store memory address word = some (Function.update memory address (some word)) := by
  rcases Option.ne_none_iff_exists'.mp mapped with ⟨old, there⟩
  simp [store, there]

theorem setValueAt_holds {memory : Memory} {place : JSValue → Nat} {data index pointer : Nat} {value : JSValue}
    (holds : Holds .ptr64 place memory pointer value) (first : memory (data + 16 * index) ≠ none)
    (second : memory (data + 16 * index + 8) ≠ none) :
    ∃ after, setValueAt memory data index pointer = some after ∧
      Holds .ptr64 place after (data + 16 * index) value ∧
      ∀ address, address ≠ data + 16 * index → address ≠ data + 16 * index + 8 → after address = memory address := by
  rcases holds with ⟨union, tag⟩
  have apart : data + 16 * index + 8 ≠ data + 16 * index := by omega
  let middle := Function.update memory (data + 16 * index) (some (value.union place))
  have mapped : middle (data + 16 * index + 8) ≠ none := by
    simpa [middle, Function.update_of_ne apart] using second
  refine ⟨Function.update middle (data + 16 * index + 8) (some (BitVec.ofInt 64 value.tag)), ?_, ⟨?_, ?_⟩, ?_⟩
  · simp [setValueAt, union, tag, store_mapped first, store_mapped mapped, middle]
  · rw [Function.update_of_ne apart.symm]
    exact Function.update_self ..
  · exact Function.update_self ..
  · intro address other other'
    rw [Function.update_of_ne other']
    exact Function.update_of_ne other _ _

namespace Callback

variable (callback : Callback)

structure Filled (count : Nat) (memory : Memory) : Prop where
  outside : ∀ address, address < callback.data ∨ callback.data + blockSize callback.values.length ≤ address →
    memory address = callback.memory address
  block : ∀ address, callback.data ≤ address → address < callback.data + blockSize callback.values.length →
    memory address ≠ none
  copied : ∀ index value, index < count → callback.values[index]? = some value →
    Holds .ptr64 callback.place memory (callback.data + 16 * index) value

theorem filled_calloc : callback.Filled 0 (calloc callback.memory callback.data (blockSize callback.values.length)) where
  outside address away := by
    have : ¬ (callback.data ≤ address ∧ address < callback.data + blockSize callback.values.length) := by omega
    simp [calloc, this]
  block address above below := by simp [calloc, above, below]
  copied index value early := absurd early (Nat.not_lt_zero _)

theorem Filled.pointer {callback : Callback} {count : Nat} {memory : Memory} (filled : callback.Filled count memory)
    {value : JSValue} {index : Nat} (there : callback.values[index]? = some value) (present : value ≠ .null) :
    Holds .ptr64 callback.place memory (callback.pointerOf value index) value := by
  have bound : index < callback.values.length := (List.getElem?_eq_some_iff.mp there).1
  have apart : callback.pointerOf value index + 16 ≤ callback.data ∨
      callback.data + blockSize callback.values.length ≤ callback.pointerOf value index := by
    have undefined := callback.undefined_apart
    have argv := callback.argv_apart
    cases value with
    | undefined => exact undefined
    | null => exact absurd rfl present
    | _ =>
      simp only [pointerOf, Arguments.address, Build.sizeOf]
      omega
  rcases (callback.pointerOf_holds there present).1 with ⟨union, tag⟩
  constructor
  · rw [filled.outside _ (by omega), union]
  · rw [filled.outside _ (by omega), tag]

theorem Filled.step {callback : Callback} {count : Nat} {memory : Memory} (filled : callback.Filled count memory)
    {value : JSValue} (there : callback.values[count]? = some value) (present : value ≠ .null) :
    ∃ after, setValueAt memory callback.data count (callback.pointerOf value count) = some after ∧
      callback.Filled (count + 1) after := by
  have bound : count < callback.values.length := (List.getElem?_eq_some_iff.mp there).1
  have inside : 16 * count + 8 < blockSize callback.values.length := by
    unfold blockSize
    omega
  have first := filled.block (callback.data + 16 * count) (by omega) (by omega)
  have second := filled.block (callback.data + 16 * count + 8) (by omega) (by omega)
  rcases setValueAt_holds (filled.pointer there present) first second with ⟨after, set, holds, others⟩
  refine ⟨after, set, ⟨fun address away => ?_, fun address above below => ?_, fun index other early held => ?_⟩⟩
  · rw [others address (by omega) (by omega)]
    exact filled.outside address away
  · by_cases here : address = callback.data + 16 * count
    · rw [here, holds.1]
      simp
    · by_cases next : address = callback.data + 16 * count + 8
      · rw [next, holds.2]
        simp
      · rw [others address here next]
        exact filled.block address above below
  · by_cases last : index = count
    · subst last
      rw [there] at held
      cases held
      exact holds
    · rcases filled.copied index other (by omega) held with ⟨union, tag⟩
      constructor
      · rw [others _ (by omega) (by omega), union]
      · rw [others _ (by omega) (by omega), tag]

theorem Filled.setValues {callback : Callback} (present : .null ∉ callback.values) (handles : List Wrapped)
    {count : Nat} {memory : Memory} (filled : callback.Filled count memory)
    (length : count + handles.length = callback.values.length)
    (points : ∀ offset value, callback.values[count + offset]? = some value →
      (handles[offset]?).map Wrapped.pointer = some (callback.pointerOf value (count + offset))) :
    ∃ after, setValues callback.data count handles memory = some after ∧ callback.Filled callback.values.length after := by
  induction handles generalizing count memory with
  | nil =>
    have done : count = callback.values.length := by simpa using length
    exact ⟨memory, rfl, done ▸ filled⟩
  | cons handle rest ih =>
    have bound : count < callback.values.length := by
      simp only [List.length_cons] at length
      omega
    have there := List.getElem?_eq_getElem bound
    have other : callback.values[count] ≠ .null := fun null => present (null ▸ List.getElem_mem bound)
    have pointer : handle.pointer = callback.pointerOf callback.values[count] count := by
      simpa using points 0 _ there
    rcases filled.step there other with ⟨next, set, filled'⟩
    rw [← pointer] at set
    have later : count + 1 + rest.length = callback.values.length := by
      simp only [List.length_cons] at length
      omega
    rcases ih filled' later (fun offset value held => by
      have := points (offset + 1) value (by rwa [show count + (offset + 1) = count + 1 + offset by omega])
      rwa [List.getElem?_cons_succ, show count + (offset + 1) = count + 1 + offset by omega] at this) with
      ⟨after, rest', done⟩
    exact ⟨after, by simp [Runtime.setValues, set, rest'], done⟩

/-- The round trip keeps every value exactly when null is not among them. -/
theorem lossless_iff : callback.Lossless ↔ JSValue.null ∉ callback.values := by
  rcases callback.channel_eq with ⟨handles, made, length, points⟩
  constructor
  · rintro ⟨handles', memory, made', _, own, _⟩ null
    rw [made] at made'
    cases made'
    rcases List.getElem_of_mem null with ⟨index, bound, same⟩
    have there : callback.values[index]? = some .null := by rw [List.getElem?_eq_getElem bound, same]
    rcases Option.map_eq_some_iff.mp (points index .null there) with ⟨handle, held, zero⟩
    exact (own index handle .null held there).1 zero
  · intro present
    have block := callback.filled_calloc
    rcases block.setValues present handles (by simpa using length) (by simpa using points) with ⟨memory, set, filled⟩
    refine ⟨handles, memory, made, length, ?_, ?_, ?_⟩
    · intro index handle value held there
      have pointer : handle.pointer = callback.pointerOf value index := by
        simpa [held] using points index value there
      have other : value ≠ .null := fun null => present (null ▸ List.mem_of_getElem? there)
      rw [pointer]
      exact (callback.pointerOf_holds there other).symm
    · rw [formatArgs, length, set]
    · intro index value there
      exact filled.copied index value (List.getElem?_eq_some_iff.mp there).1 there

end Callback

def nullCallback : Callback where
  memory address :=
    if address = 16 then some 0#64
    else if address = 24 then some 2#64
    else if address = 32 then some 0#64
    else if address = 40 then some 3#64
    else none
  place _ := 0
  argv := 16
  values := [.null]
  held index value there := by
    match index with
    | 0 =>
      cases there
      exact ⟨rfl, rfl⟩
    | _ + 1 => cases there
  undefined := 32
  data := 64
  unmapped := rfl
  undefined_held := ⟨rfl, rfl⟩
  argv_apart := .inl (by decide)
  undefined_apart := .inl (by decide)

/-- Handing the arguments back reads through the null pointer. -/
theorem null_crashes :
    ¬ nullCallback.Lossless ∧ nullCallback.channel = some [⟨.jsNull, 0⟩] ∧
      formatArgs nullCallback.memory nullCallback.data [⟨.jsNull, 0⟩] = none := by
  have made : nullCallback.channel = some [⟨.jsNull, 0⟩] := by decide
  have crashed : formatArgs nullCallback.memory nullCallback.data [⟨.jsNull, 0⟩] = none := rfl
  refine ⟨?_, made, crashed⟩
  rintro ⟨handles, memory, channel, _, _, formatted, _⟩
  rw [made] at channel
  cases channel
  rw [crashed] at formatted
  cases formatted

end Copies

end Sano.Runtime
