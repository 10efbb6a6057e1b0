import Mathlib.Logic.Function.Basic
import Sano.Runtime.Host

namespace Sano.Runtime.Array

section Model

/-- An own property. An accessor is kept as what its getter returns. -/
structure Slot where
  value : JSValue
  configurable : Bool

/-- An array of the engine. `own` has the properties with integer keys, `inherited` what
    the prototypes answer, and `fast` the number of elements of an array that is still dense. -/
structure ArrayObject where
  length : Int
  lengthWritable : Bool
  extensible : Bool
  fast : Option Nat
  own : Int → Option Slot
  inherited : Int → JSValue

def IsIndex (key : Int) : Prop := 0 ≤ key ∧ key < 2 ^ 32 - 1

instance (key : Int) : Decidable (IsIndex key) := inferInstanceAs (Decidable (_ ∧ _))

structure ArrayObject.WellFormed (a : ArrayObject) : Prop where
  range : 0 ≤ a.length ∧ a.length ≤ 2 ^ 32 - 1
  below : ∀ key slot, IsIndex key → a.own key = some slot → key < a.length

namespace ArrayObject

variable (a : ArrayObject)

def get (key : Int) : JSValue :=
  match a.own key with
  | some slot => slot.value
  | none => a.inherited key

def put (key : Int) (value : JSValue) : ArrayObject :=
  { a with own := Function.update a.own key (some ⟨value, true⟩) }

def addFast (count : Nat) (value : JSValue) : Bool × ArrayObject :=
  if a.length < 2 ^ 31 ∧ a.length < count + 1 then
    if a.lengthWritable then
      (true, { a.put count value with length := Int.bmod (count + 1) (2 ^ 32), fast := some (count + 1) })
    else (false, a)
  else (true, { a.put count value with fast := some (count + 1) })

/-- `JS_CreateProperty`. A longer length is kept also when the array refuses the element. -/
def createProperty (key : Nat) (value : JSValue) : Bool × ArrayObject :=
  if a.fast = some key ∧ key < 2 ^ 31 then
    if a.extensible then a.addFast key value else (false, a)
  else if IsIndex key then
    let a : ArrayObject := { a with fast := none }
    if a.length < key + 1 then
      if a.lengthWritable then
        let a : ArrayObject := { a with length := key + 1 }
        if a.extensible then (true, a.put key value) else (false, a)
      else (false, a)
    else if a.extensible then (true, a.put key value) else (false, a)
  else if a.extensible then (true, a.put key value) else (false, a)

/-- `JS_DefinePropertyValueUint32` with `JSProp.cwe`: a property that is not configurable is refused. -/
def define (key : Nat) (value : JSValue) : Bool × ArrayObject :=
  match a.own key with
  | some slot => if slot.configurable then (true, a.put key value) else (false, a)
  | none => a.createProperty key value

def lengthValue : JSValue :=
  if a.length < 2 ^ 31 then .int (.ofInt 32 a.length) else .float64 (Float64.ofNat a.length.toNat)

end ArrayObject

def numberKey (index : Int) : Int :=
  if -2 ^ 31 ≤ index ∧ index < 2 ^ 31 then index else Float64.roundInt index

def length (a : ArrayObject) : Except Fault Int :=
  match fromJSValue a.lengthValue with
  | .jsInt value => .ok value
  | _ => .error .typeError

def index (a : ArrayObject) (index : Int) : JSValue := a.get (numberKey index)

/-- The index is truncated to a `Uint32`. `none` is the end of the process, at a read
    through `nullptr`. -/
def set (a : ArrayObject) (index : Int) (value : JSValue) : Option (Except Fault Bool × ArrayObject) := do
  let target ← pointee value
  let (state, a) := a.define (index % 2 ^ 32).toNat target
  return (.ok state, a)

def push (a : ArrayObject) (value : JSValue) : Option (Except Fault Bool × ArrayObject) :=
  match length a with
  | .ok index => set a index value
  | .error fault => some (.error fault, a)

end Model

section Definition

namespace ArrayObject

variable {a : ArrayObject} {key : Nat} {value : JSValue}

def accepts (a : ArrayObject) (key : Nat) : Bool :=
  match a.own key with
  | some slot => slot.configurable
  | none => a.extensible && (key < a.length || !decide (IsIndex key) || a.lengthWritable)

structure Defines (a : ArrayObject) (key : Nat) (value : JSValue) (result : Bool × ArrayObject) : Prop where
  state : result.1 = a.accepts key
  own : result.2.own = if a.accepts key then Function.update a.own key (some ⟨value, true⟩) else a.own
  inherited : result.2.inherited = a.inherited

theorem Defines.accepted {next : ArrayObject} (accepts : a.accepts key = true)
    (own : next.own = Function.update a.own key (some ⟨value, true⟩)) (inherited : next.inherited = a.inherited) :
    a.Defines key value (true, next) :=
  ⟨accepts.symm, by rw [accepts, if_pos rfl, own], inherited⟩

theorem Defines.refused {next : ArrayObject} (accepts : a.accepts key = false) (own : next.own = a.own)
    (inherited : next.inherited = a.inherited) : a.Defines key value (false, next) :=
  ⟨accepts.symm, by rw [accepts, if_neg Bool.false_ne_true, own], inherited⟩

theorem accepts_missing (missing : a.own key = none) :
    a.accepts key = true ↔ a.extensible = true ∧ (key < a.length ∨ ¬ IsIndex key ∨ a.lengthWritable = true) := by
  simp [accepts, missing, or_assoc]

theorem addFast_defines (missing : a.own key = none) (extensible : a.extensible = true) (small : key < 2 ^ 31) :
    a.Defines key value (a.addFast key value) := by
  have names : IsIndex key := ⟨by omega, by omega⟩
  unfold addFast
  split
  · rename_i longer
    split
    · rename_i writable
      exact .accepted ((accepts_missing missing).mpr ⟨extensible, .inr (.inr writable)⟩) rfl rfl
    · rename_i fixed
      refine .refused ?_ rfl rfl
      rw [Bool.eq_false_iff, ne_eq, accepts_missing missing]
      rintro ⟨-, before | other | writable⟩
      · omega
      · exact other names
      · exact fixed writable
  · rename_i within
    refine .accepted ((accepts_missing missing).mpr ⟨extensible, .inl ?_⟩) rfl rfl
    omega

theorem createProperty_defines (missing : a.own key = none) : a.Defines key value (a.createProperty key value) := by
  have accepts := accepts_missing missing
  unfold createProperty
  by_cases extensible : a.extensible = true
  · simp only [extensible, if_true]
    split
    · rename_i dense
      exact addFast_defines missing extensible dense.2
    · split
      · rename_i names
        split
        · rename_i longer
          split
          · rename_i writable
            exact .accepted (accepts.mpr ⟨extensible, .inr (.inr writable)⟩) rfl rfl
          · rename_i fixed
            refine .refused ?_ rfl rfl
            rw [Bool.eq_false_iff, ne_eq, accepts]
            rintro ⟨-, before | other | writable⟩
            · omega
            · exact other names
            · exact fixed writable
        · rename_i within
          exact .accepted (accepts.mpr ⟨extensible, .inl (by omega)⟩) rfl rfl
      · rename_i other
        exact .accepted (accepts.mpr ⟨extensible, .inr (.inl other)⟩) rfl rfl
  · have refused : a.accepts key = false := by
      rw [Bool.eq_false_iff, ne_eq, accepts]
      exact fun both => extensible both.1
    simp only [extensible, Bool.false_eq_true, if_false]
    split_ifs <;> exact .refused refused rfl rfl

theorem define_defines (a : ArrayObject) (key : Nat) (value : JSValue) : a.Defines key value (a.define key value) := by
  unfold define
  split
  · rename_i slot found
    have accepts : a.accepts key = slot.configurable := by rw [ArrayObject.accepts, found]
    split
    · rename_i configurable
      exact .accepted (accepts.trans configurable) rfl rfl
    · rename_i fixed
      exact .refused (accepts.trans (by simpa using fixed)) rfl rfl
  · rename_i missing
    exact createProperty_defines missing

theorem get_define (a : ArrayObject) (key : Nat) (value : JSValue) (other : Int) :
    (a.define key value).2.get other = if other = key ∧ a.accepts key = true then value else a.get other := by
  obtain ⟨-, own, inherited⟩ := a.define_defines key value
  unfold get
  rw [own, inherited]
  by_cases accepts : a.accepts key = true
  · by_cases same : other = key
    · simp [accepts, same]
    · simp [accepts, same]
  · simp [accepts]

end ArrayObject

end Definition

section Laws

variable {a : ArrayObject}

def Pushes (a : ArrayObject) (value : JSValue) : Prop :=
  ∃ result next, push a value = some (result, next) ∧ next.length = a.length + 1 ∧ index next a.length = value

def Stores (a : ArrayObject) (i : Int) (value : JSValue) : Prop :=
  ∃ result next, set a i value = some (result, next) ∧ index next i = value ∧
    ∀ j, IsIndex j → j ≠ i → index next j = index a j

def Spares (a : ArrayObject) (i : Int) (value : JSValue) : Prop :=
  ∃ result next, set a i value = some (result, next) ∧ ∀ j, IsIndex j → index next j = index a j

/-- The array has room for an element at its end. A dense array writes a length of 2^31
    as a negative number, and one that is not extensible grows only if it is not dense. -/
def Grows (a : ArrayObject) (value : JSValue) : Prop :=
  a.length < 2 ^ 31 ∧ a.lengthWritable = true ∧
    if a.fast = some a.length.toNat then a.extensible = true ∧ a.length < 2 ^ 31 - 1
    else a.extensible = true ∨ a.inherited a.length = value

theorem numberKey_index {i : Int} (names : IsIndex i) : numberKey i = i := by
  obtain ⟨low, high⟩ := names
  unfold numberKey
  split
  · rfl
  · have small : i.natAbs < 2 ^ 53 := by omega
    rw [Float64.roundInt, if_neg (by omega), Float64.roundNat_small small]
    omega

theorem length_eq (formed : a.WellFormed) :
    length a = if a.length < 2 ^ 31 then .ok a.length else .error .typeError := by
  have range := formed.range
  unfold length ArrayObject.lengthValue
  by_cases small : a.length < 2 ^ 31
  · have kept : (BitVec.ofInt 32 a.length).toInt = a.length := by
      rw [BitVec.toInt_ofInt, Int.bmod_eq_of_le (by omega) (by omega)]
    simp only [if_pos small, fromJSValue, kept]
  · simp only [if_neg small, fromJSValue]

theorem length_law (formed : a.WellFormed) : length a = .ok a.length ↔ a.length < 2 ^ 31 := by
  rw [length_eq formed]
  split
  · rename_i small
    exact iff_of_true rfl small
  · rename_i large
    exact iff_of_false (by simp) large

theorem set_eq {value : JSValue} (held : value ≠ .null) (i : Int) :
    set a i value = some (.ok (a.define (i % 2 ^ 32).toNat value).1, (a.define (i % 2 ^ 32).toNat value).2) := by
  have target : pointee value = some value := by
    unfold pointee
    split
    · exact absurd rfl held
    · rfl
  rw [set, target]
  rfl

theorem set_null (i : Int) : set a i .null = none := rfl

/-- Every element after a write to a key, whatever the index was before it was truncated. -/
theorem index_define (key : Nat) (value : JSValue) {j : Int} (names : IsIndex j) :
    index (a.define key value).2 j = if j = key ∧ a.accepts key = true then value else index a j := by
  rw [index, index, numberKey_index names, ArrayObject.get_define]

theorem store_law (i : Int) (names : IsIndex i) (value : JSValue) :
    Stores a i value ↔ value ≠ .null ∧ (a.accepts i.toNat = true ∨ index a i = value) := by
  have key : i % 2 ^ 32 = i := Int.emod_eq_of_lt names.1 (by have := names.2; omega)
  have same : ((i.toNat : Nat) : Int) = i := Int.toNat_of_nonneg names.1
  by_cases null : value = .null
  · subst null
    exact iff_of_false (fun ⟨_, _, runs, _⟩ => by simp [set_null] at runs) fun both => both.1 rfl
  · have runs := set_eq (a := a) null i
    rw [key] at runs
    have here := index_define (a := a) i.toNat value names
    rw [same] at here
    constructor
    · rintro ⟨result, next, called, reads, -⟩
      rw [runs] at called
      cases called
      rw [here] at reads
      refine ⟨null, ?_⟩
      split at reads
      · rename_i accepted
        exact .inl accepted.2
      · exact .inr reads
    · rintro ⟨-, stored⟩
      refine ⟨_, _, runs, ?_, fun j other differ => ?_⟩
      · rw [here]
        split
        · rfl
        · rename_i refused
          exact stored.resolve_left fun accepted => refused ⟨rfl, accepted⟩
      · rw [index_define i.toNat value other, same, if_neg fun both => differ both.1]

theorem spare_law (i : Int) (value : JSValue) :
    Spares a i value ↔ value ≠ .null ∧
      (i % 2 ^ 32 = 2 ^ 32 - 1 ∨ a.accepts (i % 2 ^ 32).toNat = false ∨ index a (i % 2 ^ 32) = value) := by
  have low : 0 ≤ i % 2 ^ 32 := Int.emod_nonneg _ (by decide)
  have high : i % 2 ^ 32 < 2 ^ 32 := Int.emod_lt_of_pos _ (by decide)
  have same : ((i % 2 ^ 32).toNat : Int) = i % 2 ^ 32 := Int.toNat_of_nonneg low
  by_cases null : value = .null
  · subst null
    exact iff_of_false (fun ⟨_, _, runs, _⟩ => by simp [set_null] at runs) fun both => both.1 rfl
  · have runs := set_eq (a := a) null i
    constructor
    · rintro ⟨result, next, called, keeps⟩
      rw [runs] at called
      cases called
      refine ⟨null, ?_⟩
      by_cases last : i % 2 ^ 32 = 2 ^ 32 - 1
      · exact .inl last
      · have names : IsIndex (i % 2 ^ 32) := ⟨low, by omega⟩
        have kept := keeps _ names
        rw [index_define _ value names, same] at kept
        refine .inr ?_
        split at kept
        · exact .inr kept.symm
        · rename_i refused
          refine .inl (Bool.eq_false_iff.mpr fun accepted => refused ⟨rfl, accepted⟩)
    · rintro ⟨-, spared⟩
      refine ⟨_, _, runs, fun j names => ?_⟩
      rw [index_define _ value names, same]
      split
      · rename_i written
        obtain ⟨rfl, accepted⟩ := written
        rcases spared with last | refused | reads
        · have := names.2
          omega
        · rw [accepted] at refused
          cases refused
        · exact reads.symm
      · rfl

theorem own_end (formed : a.WellFormed) (room : a.length < 2 ^ 32 - 1) : a.own a.length = none := by
  cases found : a.own a.length with
  | none => rfl
  | some slot =>
    have := formed.below _ _ ⟨formed.range.1, room⟩ found
    omega

/-- A write right after the last element, in an array that is not dense up to there. -/
theorem create_sparse {n : Nat} (ends : a.length = n) (room : (n : Int) < 2 ^ 32 - 1) (sparse : a.fast ≠ some n)
    (value : JSValue) :
    (a.createProperty n value).2.length = if a.lengthWritable then a.length + 1 else a.length := by
  have names : IsIndex n := ⟨by omega, room⟩
  unfold ArrayObject.createProperty
  rw [if_neg fun both => sparse both.1, if_pos names]
  simp only [ends, Int.lt_succ, if_true]
  split_ifs <;> rfl

theorem create_dense {n : Nat} (ends : a.length = n) (small : n < 2 ^ 31) (dense : a.fast = some n) (value : JSValue) :
    (a.createProperty n value).2.length =
      if a.extensible = true ∧ a.lengthWritable = true then Int.bmod (n + 1) (2 ^ 32) else a.length := by
  have longer : a.length < 2 ^ 31 ∧ a.length < n + 1 := by omega
  unfold ArrayObject.createProperty ArrayObject.addFast
  rw [if_pos ⟨dense, small⟩]
  by_cases extensible : a.extensible = true
  · by_cases writable : a.lengthWritable = true
    · rw [if_pos extensible, if_pos longer, if_pos writable, if_pos ⟨extensible, writable⟩]
    · rw [if_pos extensible, if_pos longer, if_neg writable, if_neg fun both => writable both.2]
  · rw [if_neg extensible, if_neg fun both => extensible both.1]

/-- The length that a dense array writes is the right one below 2^31. -/
theorem bmod_length {n : Nat} (small : n < 2 ^ 31) : Int.bmod (n + 1) (2 ^ 32) = n + 1 ↔ (n : Int) < 2 ^ 31 - 1 := by
  by_cases last : (n : Int) < 2 ^ 31 - 1
  · exact iff_of_true (Int.bmod_eq_of_le (by omega) (by omega)) last
  · refine iff_of_false ?_ last
    have : n = 2 ^ 31 - 1 := by omega
    subst this
    decide

theorem grows_iff (formed : a.WellFormed) (small : a.length < 2 ^ 31) (value : JSValue) :
    (a.define a.length.toNat value).2.length = a.length + 1 ∧
        index (a.define a.length.toNat value).2 a.length = value ↔
      Grows a value := by
  have range := formed.range
  have ends : a.length = a.length.toNat := (Int.toNat_of_nonneg range.1).symm
  have names : IsIndex a.length := ⟨range.1, by omega⟩
  have missing : a.own a.length.toNat = none := ends ▸ own_end formed names.2
  have accepts : a.accepts a.length.toNat = true ↔ a.extensible = true ∧ a.lengthWritable = true := by
    rw [ArrayObject.accepts_missing missing, ← ends]
    simp [names]
  have reads : index a a.length = a.inherited a.length := by
    rw [index, numberKey_index names, ArrayObject.get, own_end formed names.2]
  have created : a.define a.length.toNat value = a.createProperty a.length.toNat value := by
    rw [ArrayObject.define, missing]
  have last : (if a.length = a.length.toNat ∧ a.accepts a.length.toNat = true then value else index a a.length) = value ↔
      a.extensible = true ∧ a.lengthWritable = true ∨ a.inherited a.length = value := by
    rw [reads]
    split
    · rename_i both
      exact iff_of_true rfl (.inl (accepts.mp both.2))
    · rename_i refused
      rw [or_iff_right fun both => refused ⟨ends, accepts.mpr both⟩]
  rw [index_define _ value names, last, created, Grows, and_iff_right small]
  by_cases dense : a.fast = some a.length.toNat
  · rw [create_dense ends (by omega) dense, if_pos dense]
    split
    · rename_i both
      have written := bmod_length (n := a.length.toNat) (by omega)
      rw [← ends] at written
      rw [← ends, written]
      rw [and_iff_left (.inl both), and_iff_right both.2, and_iff_right both.1]
    · rename_i fixed
      refine iff_of_false (fun both => ?_) fun both => fixed ⟨both.2.1, both.1⟩
      omega
  · rw [create_sparse ends (by omega) dense, if_neg dense]
    split
    · rename_i writable
      rw [and_iff_right rfl, and_iff_left writable, and_iff_right writable]
    · rename_i fixed
      refine iff_of_false (fun both => ?_) fun both => fixed both.1
      omega

theorem push_law (formed : a.WellFormed) (value : JSValue) : Pushes a value ↔ value ≠ .null ∧ Grows a value := by
  by_cases small : a.length < 2 ^ 31
  · have called : push a value = set a a.length value := by
      rw [push, (length_law formed).mpr small]
    have key : a.length % 2 ^ 32 = a.length := Int.emod_eq_of_lt formed.range.1 (by omega)
    unfold Pushes
    by_cases null : value = .null
    · subst null
      exact iff_of_false (fun ⟨_, _, runs, _⟩ => by simp [called, set_null] at runs) fun both => both.1 rfl
    · rw [called, set_eq null, key, ← grows_iff formed small]
      constructor
      · rintro ⟨result, next, runs, effects⟩
        cases runs
        exact ⟨null, effects⟩
      · rintro ⟨-, effects⟩
        exact ⟨_, _, rfl, effects⟩
  · have thrown : push a value = some (.error .typeError, a) := by
      rw [push, length_eq formed, if_neg small]
    refine iff_of_false ?_ fun both => small both.2.1
    rintro ⟨result, next, runs, longer, -⟩
    rw [thrown] at runs
    cases runs
    omega

theorem create_length (formed : a.WellFormed) {key : Nat} (narrow : a.fast ≠ some (2 ^ 31 - 1)) (value : JSValue) :
    a.length ≤ (a.createProperty key value).2.length ∧ (a.createProperty key value).2.length ≤ 2 ^ 32 - 1 ∧
      ((a.createProperty key value).1 = true → IsIndex key → key < (a.createProperty key value).2.length) := by
  have range := formed.range
  unfold ArrayObject.createProperty ArrayObject.addFast
  split
  · rename_i dense
    have inner : key ≠ 2 ^ 31 - 1 := fun last => narrow (last ▸ dense.1)
    have written : Int.bmod (key + 1) (2 ^ 32) = key + 1 := (bmod_length dense.2).mpr (by omega)
    split_ifs
    · refine ⟨?_, ?_, fun _ _ => ?_⟩ <;> simp only [written] <;> omega
    · exact ⟨le_refl _, range.2, fun taken => by cases taken⟩
    · refine ⟨le_refl _, range.2, fun _ _ => ?_⟩
      simp only [ArrayObject.put]
      omega
    · exact ⟨le_refl _, range.2, fun taken => by cases taken⟩
  · split
    · rename_i names
      obtain ⟨low, high⟩ := names
      dsimp only
      split_ifs
      · refine ⟨?_, ?_, fun _ _ => ?_⟩ <;> simp only [ArrayObject.put] <;> omega
      · refine ⟨?_, ?_, fun taken => by cases taken⟩ <;> dsimp only <;> omega
      · exact ⟨le_refl _, range.2, fun taken => by cases taken⟩
      · refine ⟨le_refl _, range.2, fun _ _ => ?_⟩
        simp only [ArrayObject.put]
        omega
      · exact ⟨le_refl _, range.2, fun taken => by cases taken⟩
    · rename_i other
      split_ifs
      · exact ⟨le_refl _, range.2, fun _ names => absurd names other⟩
      · exact ⟨le_refl _, range.2, fun taken => by cases taken⟩

theorem define_length (formed : a.WellFormed) {key : Nat} (narrow : a.fast ≠ some (2 ^ 31 - 1)) (value : JSValue) :
    a.length ≤ (a.define key value).2.length ∧ (a.define key value).2.length ≤ 2 ^ 32 - 1 ∧
      ((a.define key value).1 = true → IsIndex key → key < (a.define key value).2.length) := by
  unfold ArrayObject.define
  split
  · rename_i slot found
    split
    · exact ⟨le_refl _, formed.range.2, fun _ names => formed.below key slot names found⟩
    · exact ⟨le_refl _, formed.range.2, fun taken => by cases taken⟩
  · exact create_length formed narrow value

/-- A definition keeps what the engine keeps, but for the length that is written negative. -/
theorem ArrayObject.WellFormed.define (formed : a.WellFormed) {key : Nat} (narrow : a.fast ≠ some (2 ^ 31 - 1))
    (value : JSValue) : (a.define key value).2.WellFormed := by
  obtain ⟨state, own, -⟩ := a.define_defines key value
  obtain ⟨longer, bounded, inside⟩ := @define_length a formed key narrow value
  have range := formed.range
  refine ⟨by omega, fun other slot names found => ?_⟩
  have before (kept : a.own other = some slot) : other < (a.define key value).2.length :=
    Int.lt_of_lt_of_le (formed.below other slot names kept) longer
  rw [own] at found
  split at found
  · rename_i accepts
    by_cases same : other = key
    · rw [same] at names ⊢
      exact inside (state.trans accepts) names
    · rw [Function.update_of_ne same] at found
      exact before found
  · exact before found

/-- The laws of an array, each with the exact arrays, values and indices it holds for. -/
theorem array_faithful_iff (formed : a.WellFormed) (i : Int) (value : JSValue) :
    (length a = .ok a.length ↔ a.length < 2 ^ 31) ∧
      (a.length < 2 ^ 32 - 1 → (Pushes a value ↔ value ≠ .null ∧ Grows a value)) ∧
      (IsIndex i → (Stores a i value ↔ value ≠ .null ∧ (a.accepts i.toNat = true ∨ index a i = value))) ∧
      (¬ IsIndex i →
        (Spares a i value ↔ value ≠ .null ∧
          (i % 2 ^ 32 = 2 ^ 32 - 1 ∨ a.accepts (i % 2 ^ 32).toNat = false ∨ index a (i % 2 ^ 32) = value))) :=
  ⟨length_law formed, fun _ => push_law formed value, fun names => store_law i names value,
    fun _ => spare_law i value⟩

def literal (values : List JSValue) : ArrayObject where
  length := values.length
  lengthWritable := true
  extensible := true
  fast := some values.length
  own key := if key < 0 then none else values[key.toNat]?.map (⟨·, true⟩)
  inherited _ := .undefined

theorem literal_wellFormed {values : List JSValue} (fits : values.length < 2 ^ 32) : (literal values).WellFormed := by
  refine ⟨⟨Int.natCast_nonneg _, ?_⟩, fun key slot names found => ?_⟩
  · change (values.length : Int) ≤ 2 ^ 32 - 1
    omega
  · obtain ⟨low, -⟩ := names
    simp only [literal, if_neg (Int.not_lt.mpr low), Option.map_eq_some_iff] at found
    obtain ⟨value, there, -⟩ := found
    obtain ⟨inside, -⟩ := List.getElem?_eq_some_iff.mp there
    change key < (values.length : Int)
    omega

theorem array_faithful_iff_pair :
    (literal [.int 1, .int 2]).WellFormed ∧ Pushes (literal [.int 1, .int 2]) (.int 9) ∧
      Stores (literal [.int 1, .int 2]) 1 (.int 9) := by
  have formed : (literal [.int 1, .int 2]).WellFormed := literal_wellFormed (by decide)
  obtain ⟨-, pushes, stores, -⟩ := array_faithful_iff formed 1 (.int 9)
  refine ⟨formed, (pushes (by decide)).mpr ⟨by simp, ?_⟩, (stores (by decide)).mpr ⟨by simp, .inl (by decide)⟩⟩
  exact ⟨by decide, rfl, by simp [literal]⟩

def newArray (length : Int) : ArrayObject :=
  { length, lengthWritable := true, extensible := true, fast := some 0, own := fun _ => none,
    inherited := fun _ => .undefined }

/-- A length of 2^31 is no `JSInt`, and `set` with the index 2^32 or -2^32 writes the first element. -/
theorem large_index_overwrites :
    (newArray (2 ^ 31)).WellFormed ∧ length (newArray (2 ^ 31)) = .error .typeError ∧
      ∀ i ∈ [2 ^ 32, -2 ^ 32], ∃ next, set (literal [.int 1, .int 2]) i (.int 9) = some (.ok true, next) ∧
        index (literal [.int 1, .int 2]) 0 = .int 1 ∧ index next 0 = .int 9 := by
  refine ⟨⟨by decide, fun _ _ _ found => by cases found⟩, rfl, fun i member => ?_⟩
  simp only [List.mem_cons, List.not_mem_nil, or_false] at member
  rcases member with rfl | rfl <;> exact ⟨_, rfl, rfl, rfl⟩

end Laws

end Sano.Runtime.Array
