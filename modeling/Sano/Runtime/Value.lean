import Sano.Base.Encoding
import Sano.Base.LinkedMap

namespace Sano.Runtime

inductive Shape where
  | array
  | function
  | promise
  | plain
deriving DecidableEq

def isWide (unit : UInt16) : Bool := 0x100 ≤ unit.toNat

/-- A string of the engine. One may be kept in 16 bits though every unit fits 8. -/
structure JSString where
  units : List UInt16
  isWideChar : Bool
  narrow : isWideChar = false → units.any isWide = false

def JSString.ofUnits (units : List UInt16) : JSString := ⟨units, units.any isWide, id⟩

/-- A JS value, one constructor for each tag. A failed engine call gives `exception`. -/
inductive JSValue where
  | undefined
  | null
  | bool (value : Bool)
  | int (value : BitVec 32)
  | float64 (bits : Float64)
  | string (text : JSString)
  | symbol (ref : Nat)
  | bigInt (ref : Nat)
  | bigFloat (ref : Nat)
  | bigDecimal (ref : Nat)
  | object (shape : Shape) (ref : Nat)
  | exception

/-- The classes of `js_value.dart`. The handles of undefined and null keep no
    value, an integer is kept as its getter `value` reads it. -/
inductive Handle where
  | jsInt (value : Int)
  | jsFloat (bits : Float64)
  | jsBoolean (value : Bool)
  | jsString (text : JSString)
  | jsUndefined
  | jsNull
  | jsArray (ref : Nat)
  | jsFunction (ref : Nat)
  | jsPromise (ref : Nat)
  | jsObject (value : JSValue)

def fromJSValue : JSValue → Handle
  | .int value => .jsInt value.toInt
  | .float64 bits => .jsFloat bits
  | .bool value => .jsBoolean value
  | .string text => .jsString text
  | .undefined => .jsUndefined
  | .null => .jsNull
  | .object .array ref => .jsArray ref
  | .object .function ref => .jsFunction ref
  | .object .promise ref => .jsPromise ref
  | value => .jsObject value

def pointee : JSValue → Option JSValue
  | .null => none
  | value => some value

/-- `JSInt.create(context, value).value`: a number that does not fit 32 bits
    is kept as a double and read back modulo 2^64. -/
def int64Value (value : Int) : Int :=
  if -2 ^ 31 ≤ value ∧ value < 2 ^ 31 then value else (Float64.roundInt value).bmod (2 ^ 64)

/-- What the engine answers when code of this library reads an object. The JS
    program decides, through getters, proxies and `toString` methods. -/
structure Engine where
  length : Nat → JSValue
  text : Nat → Option JSString

def dropMark : List Nat → List Nat
  | 0xfeff :: rest => rest
  | points => points

inductive Fault where
  | noSuchMethod
  | typeError
  | unsupported
  | formatException
deriving DecidableEq

def JSString.cStringLen (s : JSString) : Nat :=
  if s.isWideChar then s.units.length * 3 else s.units.length + s.units.countP (0x80 ≤ ·.toNat)

/-- `JS_ToCString` and `toDartString`: the text up to the first NUL, as code
    points. A length that overflows gives a null pointer. The engine encodes an
    unpaired surrogate as it is, and the decoder rejects it. -/
def toDartString (s : JSString) : Except Fault (List Nat) :=
  let read := (Utf16.points s.units).takeWhile (· ≠ 0)
  if 2 ^ 31 ≤ s.cStringLen then .error .unsupported
  else if read.any Utf16.isSurrogate then .error .formatException
  else .ok (dropMark read)

end Sano.Runtime
