import Mathlib.Data.Nat.Digits.Lemmas
import Sano.Base.Binary64
import Sano.Base.JsonText

namespace JsonText

section Model

/-- A number of a decoder that tells integers of 64 bits from doubles. -/
inductive DecodedNumber where
  | int (value : Int)
  | double (bits : Float64)

def DecodedNumber.toDouble : DecodedNumber → Float64
  | .int value => Float64.ofRat value
  | .double bits => bits

end Model

section Values

section Signs

variable (body : List UInt16)

variable {body}

end Signs

end Values

end JsonText
