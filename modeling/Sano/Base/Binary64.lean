import Mathlib.Algebra.Order.Field.Power
import Mathlib.Data.Int.Log
import Mathlib.Data.Rat.Floor
import Mathlib.Tactic.Linarith
import Mathlib.Tactic.Positivity
import Mathlib.Tactic.Ring
import Sano.Base.Encoding

def halfEven (x : ℚ) : Nat :=
  let n := ⌊x⌋₊
  if x - n < 1 / 2 then n else if 1 / 2 < x - n then n + 1 else if n % 2 = 0 then n else n + 1

namespace Float64

section Values

def significand (bits : Float64) : Nat := if bits.exponent = 0 then bits.fraction else 2 ^ 52 + bits.fraction

def scale (bits : Float64) : Int := max bits.exponent 1 - 1075

def absRat (bits : Float64) : ℚ := bits.significand * 2 ^ bits.scale

def place (x : ℚ) : Int := max (Int.log 2 x - 52) (-1074)

/-- The bits below the sign. A significand of 2^53 carries over to the exponent, and
    what is too large becomes infinity. -/
def code (m : Nat) (k : Int) : Nat := min ((k + 1074).toNat * 2 ^ 52 + m) (2047 * 2 ^ 52)

def ofRat (x : ℚ) : Float64 :=
  if x = 0 then 0#64
  else BitVec.ofNat 64 ((if x < 0 then 2 ^ 63 else 0) + code (halfEven (|x| / 2 ^ place |x|)) (place |x|))

end Values

section Fields

theorem normal (bits : Float64) : 2 ^ 52 ≤ bits.significand ∨ bits.scale = -1074 := by
  unfold significand scale
  by_cases zero : bits.exponent = 0
  · right
    rw [zero]
    rfl
  · left
    rw [if_neg zero]
    omega

end Fields

section Rounding

variable {x : ℚ}

end Rounding

end Float64
