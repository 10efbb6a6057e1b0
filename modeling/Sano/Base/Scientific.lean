import Sano.Base.Binary64

/-- The nearest number of `n` significant decimal digits, as an integer and the place of
    the decimal point: the number is the integer times ten to the power `point - n`. -/
def scientific (n : Nat) (x : ℚ) : Nat × Int :=
  let point := Int.log 10 x + 1
  let digits := halfEven (x * 10 ^ (n - point))
  if digits = 10 ^ n then (digits / 10, point + 1) else (digits, point)

namespace Scientific

def value (n : Nat) (decimal : Nat × Int) : ℚ := decimal.1 * 10 ^ (decimal.2 - n)

variable {n : Nat} {x : ℚ}

end Scientific

namespace Float64

end Float64
