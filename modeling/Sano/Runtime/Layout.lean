import Mathlib.Tactic.Common
import Sano.Runtime.Value

namespace Sano.Runtime

section Engine

inductive Build where
  | ptr64
  | nanBoxing
deriving DecidableEq

abbrev Memory := Nat → Option (BitVec 64)

def JSValue.tag : JSValue → Int
  | .bigDecimal _ => -11
  | .bigInt _ => -10
  | .bigFloat _ => -9
  | .symbol _ => -8
  | .string _ => -7
  | .object _ _ => -1
  | .int _ => 0
  | .bool _ => 1
  | .null => 2
  | .undefined => 3
  | .exception => 6
  | .float64 _ => 7

/-- The argument of `JS_MKVAL` or `JS_MKPTR`; `place` tells where the engine keeps
    what has a reference count. -/
def JSValue.payload (place : JSValue → Nat) : JSValue → Nat
  | .int value => value.toNat
  | .bool value => value.toNat
  | .null => 0
  | .undefined => 0
  | .exception => 0
  | value => place value

def Build.sizeOf : Build → Nat
  | .ptr64 => 16
  | .nanBoxing => 8

def JSValue.union (place : JSValue → Nat) : JSValue → BitVec 64
  | .float64 bits => bits
  | value => BitVec.ofNat 64 (value.payload place)

def float64Addend : BitVec 64 := 0x7ff8000c00000000#64

/-- `__JS_NewFloat64` with NaN boxing: there is one NaN. -/
def newFloat64 (bits : Float64) : BitVec 64 :=
  if (bits &&& 0x7fffffffffffffff#64).toNat > 0x7ff0000000000000 then 0x7ff8000000000000#64 - float64Addend
  else bits - float64Addend

def JSValue.boxed (place : JSValue → Nat) : JSValue → BitVec 64
  | .float64 bits => newFloat64 bits
  | value => BitVec.ofInt 32 value.tag ++ BitVec.ofNat 32 (value.payload place)

def Holds (build : Build) (place : JSValue → Nat) (memory : Memory) (address : Nat) (value : JSValue) : Prop :=
  match build with
  | .ptr64 =>
    memory address = some (value.union place) ∧ memory (address + 8) = some (BitVec.ofInt 64 value.tag)
  | .nanBoxing => memory address = some (value.boxed place)

def tagIsFloat64 (tag : BitVec 32) : Bool := 18 ≤ (tag + 11#32).toNat

def boxedNormTag (word : BitVec 64) : Int :=
  let tag := (word >>> 32).setWidth 32
  if tagIsFloat64 tag then 7 else tag.toInt

def normTag (build : Build) (memory : Memory) (address : Nat) : Option Int :=
  match build with
  | .ptr64 => (memory (address + 8)).map fun tag => (tag.setWidth 32).toInt
  | .nanBoxing => (memory address).map boxedNormTag

end Engine

section Dart

/-- `pointer.ref.tag`: the struct of `typedef.dart` has a union of eight bytes before
    the tag, in every build. -/
def refTag (memory : Memory) (address : Nat) : Option Int := (memory (address + 8)).map BitVec.toInt

inductive HandleClass where
  | jsInt
  | jsFloat
  | jsBoolean
  | jsString
  | jsUndefined
  | jsNull
  | jsArray
  | jsFunction
  | jsPromise
  | jsObject
deriving DecidableEq

def Handle.handleClass : Handle → HandleClass
  | .jsInt _ => .jsInt
  | .jsFloat _ => .jsFloat
  | .jsBoolean _ => .jsBoolean
  | .jsString _ => .jsString
  | .jsUndefined => .jsUndefined
  | .jsNull => .jsNull
  | .jsArray _ => .jsArray
  | .jsFunction _ => .jsFunction
  | .jsPromise _ => .jsPromise
  | .jsObject _ => .jsObject

def JSValue.shape : JSValue → Shape
  | .object shape _ => shape
  | _ => .plain

def classFor (tag : Int) (value : JSValue) : HandleClass :=
  if tag = 0 then .jsInt
  else if tag = 7 then .jsFloat
  else if tag = 1 then .jsBoolean
  else if tag = -7 then .jsString
  else if tag = 3 then .jsUndefined
  else if tag = 2 then .jsNull
  else
    match value.shape with
    | .array => .jsArray
    | .function => .jsFunction
    | .promise => .jsPromise
    | .plain => .jsObject

end Dart

section Agreement

theorem tag_bounds (value : JSValue) : -11 ≤ value.tag ∧ value.tag ≤ 7 := by
  cases value <;> simp [JSValue.tag]

theorem classFor_tag (value : JSValue) : classFor value.tag value = (fromJSValue value).handleClass := by
  cases value with
  | object shape ref => cases shape <;> rfl
  | _ => rfl

theorem toInt_ofInt_tag (value : JSValue) :
    (BitVec.ofInt 64 value.tag).toInt = value.tag ∧ ((BitVec.ofInt 64 value.tag).setWidth 32).toInt = value.tag := by
  cases value <;> simp only [JSValue.tag] <;> decide

theorem setWidth_append_shift (tag payload : BitVec 32) : ((tag ++ payload) >>> 32).setWidth 32 = tag := by
  apply BitVec.eq_of_toNat_eq
  have low := payload.isLt
  have high := tag.isLt
  rw [BitVec.toNat_setWidth, BitVec.toNat_ushiftRight, BitVec.toNat_append, Nat.shiftRight_eq_div_pow,
    ← Nat.shiftLeft_add_eq_or_of_lt low, Nat.shiftLeft_eq]
  omega

theorem magnitude_toNat (bits : Float64) : (bits &&& 0x7fffffffffffffff#64).toNat = bits.toNat % 2 ^ 63 := by
  rw [BitVec.toNat_and]
  exact Nat.and_two_pow_sub_one_eq_mod bits.toNat 63

theorem newFloat64_toNat (bits : Float64) :
    7 * 2 ^ 32 ≤ (newFloat64 bits).toNat ∧ (newFloat64 bits).toNat < 2 ^ 64 - 11 * 2 ^ 32 := by
  unfold newFloat64
  split
  · decide
  next number =>
    rw [magnitude_toNat] at number
    have bound := bits.isLt
    rw [BitVec.toNat_sub, float64Addend, BitVec.toNat_ofNat]
    omega

theorem boxedNormTag_newFloat64 (bits : Float64) : boxedNormTag (newFloat64 bits) = 7 := by
  rcases newFloat64_toNat bits with ⟨above, below⟩
  have float : tagIsFloat64 (((newFloat64 bits) >>> 32).setWidth 32) = true := by
    simp only [tagIsFloat64, decide_eq_true_eq, BitVec.toNat_add, BitVec.toNat_setWidth, BitVec.toNat_ushiftRight,
      Nat.shiftRight_eq_div_pow, BitVec.toNat_ofNat]
    omega
  simp [boxedNormTag, float]

theorem boxedNormTag_boxed (place : JSValue → Nat) (value : JSValue) : boxedNormTag (value.boxed place) = value.tag := by
  cases value with
  | float64 bits => exact boxedNormTag_newFloat64 bits
  | _ =>
    simp only [JSValue.boxed, boxedNormTag, setWidth_append_shift, JSValue.tag]
    decide

theorem Holds.normTag {build : Build} {place : JSValue → Nat} {memory : Memory} {address : Nat} {value : JSValue}
    (holds : Holds build place memory address value) : normTag build memory address = some value.tag := by
  cases build with
  | ptr64 =>
    rw [Runtime.normTag, holds.2, Option.map_some, (toInt_ofInt_tag value).2]
  | nanBoxing =>
    rw [Runtime.normTag, show memory address = _ from holds, Option.map_some, boxedNormTag_boxed]

theorem toInt_boxed (tag : Int) (low : -11 ≤ tag) (high : tag ≤ 7) (payload : Nat) :
    (BitVec.ofInt 32 tag ++ BitVec.ofNat 32 payload).toInt = tag * 2 ^ 32 + (payload % 2 ^ 32 : Nat) := by
  rw [BitVec.toInt_append, BitVec.toInt_ofInt, BitVec.toNat_ofNat, Int.bmod_eq_of_le (by omega) (by omega), Int.mul_comm]
  rfl

def Mimics (place : JSValue → Nat) (tag : Int) : JSValue → Prop
  | .int value => (value.toNat : Int) = tag
  | .object shape ref => ((place (.object shape ref) % 2 ^ 32 : Nat) : Int) = 2 ^ 32 + tag
  | _ => False

theorem toInt_boxed_iff (place : JSValue → Nat) (value : JSValue) {tag : Int} (low : -11 ≤ tag) (high : tag ≤ 7) :
    (value.boxed place).toInt = tag ↔ Mimics place tag value := by
  have bounds := tag_bounds value
  have other (payload : Nat) (no : value.tag ≠ 0) (no' : value.tag ≠ -1) :
      (BitVec.ofInt 32 value.tag ++ BitVec.ofNat 32 payload).toInt ≠ tag := by
    rw [toInt_boxed _ bounds.1 bounds.2]
    have small := Nat.mod_lt payload (Nat.two_pow_pos 32)
    omega
  cases value with
  | float64 bits =>
    rcases newFloat64_toNat bits with ⟨above, below⟩
    simp only [JSValue.boxed, Mimics, iff_false, BitVec.toInt_eq_toNat_cond]
    omega
  | int value =>
    simp only [JSValue.boxed, Mimics]
    rw [toInt_boxed _ bounds.1 bounds.2]
    have small := value.isLt
    simp only [JSValue.tag, JSValue.payload]
    omega
  | object shape ref =>
    simp only [JSValue.boxed, Mimics]
    rw [toInt_boxed _ bounds.1 bounds.2]
    simp only [JSValue.tag, JSValue.payload]
    omega
  | _ =>
    simp only [Mimics, iff_false]
    exact other _ (by simp [JSValue.tag]) (by simp [JSValue.tag])

end Agreement

section Arguments

structure Arguments (build : Build) where
  memory : Memory
  place : JSValue → Nat
  argv : Nat
  values : List JSValue
  held : ∀ index value, values[index]? = some value →
    Holds build place memory (argv + build.sizeOf * index) value

namespace Arguments

variable {build : Build} (arguments : Arguments build)

def address (index : Nat) : Nat := arguments.argv + build.sizeOf * index

def Classified (index : Fin arguments.values.length) : Prop :=
  refTag arguments.memory (arguments.address index) = normTag build arguments.memory (arguments.address index) ∧
    (refTag arguments.memory (arguments.address index)).map (classFor · arguments.values[index]) =
      some (fromJSValue arguments.values[index]).handleClass

def Mimicked (index : Fin arguments.values.length) : Prop :=
  match arguments.values[index.val + 1]? with
  | some next => Mimics arguments.place arguments.values[index].tag next
  | none => arguments.memory (arguments.address (index.val + 1)) = some (BitVec.ofInt 64 arguments.values[index].tag)

theorem held_at (index : Fin arguments.values.length) :
    Holds build arguments.place arguments.memory (arguments.address index) arguments.values[index] :=
  arguments.held index _ (List.getElem?_eq_getElem index.isLt)

theorem classified_iff (index : Fin arguments.values.length) :
    arguments.Classified index ↔
      refTag arguments.memory (arguments.address index) = some arguments.values[index].tag := by
  rw [Classified, (arguments.held_at index).normTag]
  constructor
  · exact fun classified => classified.1
  · intro reads
    rw [reads, Option.map_some, classFor_tag]
    exact ⟨rfl, rfl⟩

theorem refTag_eq_iff (memory : Memory) (address : Nat) (value : JSValue) :
    refTag memory address = some value.tag ↔ memory (address + 8) = some (BitVec.ofInt 64 value.tag) := by
  rw [refTag, Option.map_eq_some_iff]
  constructor
  · rintro ⟨word, there, reads⟩
    rw [there, ← reads, BitVec.ofInt_toInt]
  · intro there
    exact ⟨_, there, (toInt_ofInt_tag value).1⟩

/-- In the 64-bit build the tag and the class are right at every position. With NaN
    boxing they are right exactly where the next word happens to look like the tag. -/
theorem classified_iff_ptr64_or_mimicked (index : Fin arguments.values.length) :
    arguments.Classified index ↔ build = .ptr64 ∨ arguments.Mimicked index := by
  rw [classified_iff]
  cases build with
  | ptr64 =>
    simp only [true_or, iff_true]
    exact (refTag_eq_iff _ _ _).mpr (arguments.held_at index).2
  | nanBoxing =>
    have behind : arguments.address index + 8 = arguments.address (index.val + 1) := by
      simp only [address, Build.sizeOf]
      omega
    simp only [reduceCtorEq, false_or, Mimicked]
    cases next : arguments.values[index.val + 1]? with
    | none => rw [refTag_eq_iff, behind]
    | some value =>
      have held : arguments.memory (arguments.address (index.val + 1)) = some (value.boxed arguments.place) :=
        arguments.held _ value next
      have bounds := tag_bounds arguments.values[index]
      simp only [refTag, behind, held, Option.map_some, Option.some.injEq]
      exact toInt_boxed_iff arguments.place value bounds.1 bounds.2

end Arguments

def fiveSeven : Arguments .nanBoxing where
  memory address := if address = 8 then some 5#64 else if address = 16 then some 7#64 else none
  place _ := 0
  argv := 8
  values := [.int 5#32, .int 7#32]
  held index value there := by
    match index with
    | 0 =>
      cases there
      rfl
    | 1 =>
      cases there
      rfl
    | _ + 2 => cases there

/-- The 5 is taken for a double. -/
theorem five_classified_as_float :
    ¬ fiveSeven.Classified ⟨0, by decide⟩ ∧
      (refTag fiveSeven.memory (fiveSeven.address 0)).map (classFor · (.int 5#32)) = some .jsFloat := by
  constructor
  · intro classified
    exact absurd classified.1 (by decide)
  · decide

end Arguments

end Sano.Runtime
