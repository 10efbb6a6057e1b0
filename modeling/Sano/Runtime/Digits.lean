import Sano.Base.JsonNumber
import Sano.Base.Scientific
import Sano.Runtime.Number

namespace Sano.Runtime

section Model

theorem leading_digit {m first : Nat} {rest : List Nat} (digits : (Nat.digits 10 m).reverse = first :: rest) : 0 < first := by
  have some : Nat.digits 10 m ≠ [] := by
    rintro none
    simp [none] at digits
  have last := Nat.getLast_digit_ne_zero 10 (m := m) (Nat.digits_ne_nil_iff_ne_zero.mp some)
  have head : (Nat.digits 10 m).reverse.head? = (Nat.digits 10 m).getLast? := List.head?_reverse
  rw [digits, List.getLast?_eq_some_getLast some, List.head?_cons, Option.some.injEq] at head
  omega

def Decimal.ofNat (negative : Bool) (m : Nat) (point : Int) : Decimal :=
  match digits : (Nat.digits 10 m).reverse with
  | first :: rest =>
    ⟨negative, first, rest, point, leading_digit digits, fun _ member =>
      Nat.digits_lt_base (by decide) (List.mem_reverse.mp (digits ▸ member))⟩
  | [] => ⟨negative, 1, [], point, by decide, by decide⟩

def trim : Nat → Nat → Nat
  | n + 2, m => if m % 10 = 0 then trim (n + 1) (m / 10) else n + 2
  | n, _ => n

def readBack (bits : Float64) (n : Nat) : Float64 :=
  let magnitude := Scientific.value n (scientific n bits.absRat)
  Float64.ofRat (if bits.sign then -magnitude else magnitude)

theorem trim_le (n m : Nat) : trim n m ≤ n := by
  fun_induction trim n m with
  | case1 n m zero ih => omega
  | case2 n m other => exact Nat.le_refl _
  | case3 n m short => exact Nat.le_refl _

def leastDigits (bits : Float64) (low high : Nat) : Nat :=
  if low < high then
    let n := (low + high) / 2
    if readBack bits n = bits then leastDigits bits low (trim n (scientific n bits.absRat).1)
    else leastDigits bits (n + 1) high
  else high
termination_by high - low
decreasing_by
  · have := trim_le ((low + high) / 2) (scientific ((low + high) / 2) bits.absRat).1
    omega
  · omega

/-- `js_ecvt` with as many digits as needed, of a finite double other than zero. -/
def ecvt (bits : Float64) : Decimal :=
  let n := leastDigits bits 1 17
  let (m, point) := scientific n bits.absRat
  .ofNat bits.sign m point

def Decimal.mantissa (decimal : Decimal) : Nat := Nat.ofDigits 10 (decimal.first :: decimal.rest).reverse

def Decimal.magnitude (decimal : Decimal) : ℚ := decimal.mantissa * 10 ^ (decimal.point - decimal.units.length)

/-- The double that a number is; `-0` is written as `0`. -/
def Number.toDouble : Number → Float64
  | .int value => Float64.ofRat value.toInt
  | .float bits => if bits.absRat = 0 then 0#64 else bits

end Model

section Search

variable {bits : Float64}

end Search

section Digits

end Digits

section Layout

open JsonText

variable (decimal : Decimal)

end Layout

section Arrival

open JsonText

end Arrival

end Sano.Runtime
