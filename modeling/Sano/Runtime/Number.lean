import Mathlib.Data.Nat.Digits.Lemmas
import Sano.Base.JsonText
import Sano.Runtime.Value

namespace Sano.Runtime

section Model

def digitUnit (digit : Nat) : UInt16 := .ofNat (48 + digit)

def natText (n : Nat) : List UInt16 := if n = 0 then [0x30] else (Nat.digits 10 n).reverse.map digitUnit

def intText (n : Int) : List UInt16 := if n < 0 then 0x2d :: natText n.natAbs else natText n.natAbs

/-- The result of `js_ecvt` for a finite double other than zero: the value is `0.digits` times
    ten to the power `point`. -/
structure Decimal where
  negative : Bool
  first : Nat
  rest : List Nat
  point : Int
  leading : 0 < first
  digits : ∀ digit ∈ first :: rest, digit < 10

def Decimal.units (decimal : Decimal) : List UInt16 := (decimal.first :: decimal.rest).map digitUnit

def Decimal.layout (decimal : Decimal) : List UInt16 :=
  let n := decimal.point
  let k := decimal.units.length
  if 1 ≤ n ∧ n ≤ 21 then
    if (k : Int) ≤ n then decimal.units ++ List.replicate (n.toNat - k) 0x30
    else decimal.units.take n.toNat ++ 0x2e :: decimal.units.drop n.toNat
  else if -5 ≤ n ∧ n ≤ 0 then 0x30 :: 0x2e :: List.replicate (-n).toNat 0x30 ++ decimal.units
  else
    digitUnit decimal.first :: (if decimal.rest = [] then [] else 0x2e :: decimal.rest.map digitUnit) ++
      0x65 :: (if 0 ≤ n - 1 then 0x2b :: intText (n - 1) else intText (n - 1))

def safeInteger (bits : Float64) : Option Int :=
  let whole := if bits.exponent = 0 then decide (bits.fraction = 0)
    else decide ((2 ^ 52 + bits.fraction) * 2 ^ (bits.exponent - 1075) % 2 ^ (1075 - bits.exponent) = 0)
  if whole && decide (bits.magnitude ≤ 2 ^ 53 - 1) then
    some (if bits.sign then -bits.magnitude else bits.magnitude)
  else none

def infinity : List UInt16 := [0x49, 0x6e, 0x66, 0x69, 0x6e, 0x69, 0x74, 0x79]

/-- `js_dtoa` with as many digits as needed; `ecvt` is `js_ecvt`. -/
def dtoa (ecvt : Float64 → Decimal) (bits : Float64) : List UInt16 :=
  if !bits.isFinite then
    if bits.fraction ≠ 0 then [0x4e, 0x61, 0x4e]
    else if bits.sign then 0x2d :: infinity
    else infinity
  else
    match safeInteger bits with
    | some n => intText n
    | none => if (ecvt bits).negative then 0x2d :: (ecvt bits).layout else (ecvt bits).layout

inductive Number where
  | int (value : BitVec 32)
  | float (bits : Float64)

def Number.isFinite : Number → Bool
  | .int _ => true
  | .float bits => bits.isFinite

def Number.text (ecvt : Float64 → Decimal) : Number → List UInt16
  | .int value => intText value.toInt
  | .float bits => dtoa ecvt bits

end Model

section Texts

open JsonText

theorem isDigit_digitUnit {digit : Nat} (small : digit < 10) : isDigit (digitUnit digit) = true := by
  have all : ∀ n : Fin 10, isDigit (digitUnit n) = true := by decide
  exact all ⟨digit, small⟩

theorem digitUnit_ne_zero {digit : Nat} (small : digit < 10) (positive : 0 < digit) : digitUnit digit ≠ 0x30 := by
  have all : ∀ n : Fin 10, 0 < n.val → digitUnit n ≠ 0x30 := by decide
  exact all ⟨digit, small⟩ positive

theorem natText_digits (n : Nat) : ∀ unit ∈ natText n, isDigit unit = true := by
  unfold natText
  split
  · simp [isDigit]
  · intro unit member
    obtain ⟨digit, here, rfl⟩ := List.mem_map.mp member
    exact isDigit_digitUnit (Nat.digits_lt_base (by decide) (List.mem_reverse.mp here))

theorem natText_whole (n : Nat) : isWhole (natText n) = true := by
  unfold natText
  split
  case isTrue => rfl
  case isFalse positive =>
    have some := Nat.digits_ne_nil_iff_ne_zero (b := 10).mpr positive
    have last := Nat.getLast_digit_ne_zero 10 positive
    have small := Nat.digits_lt_base (by decide) (List.getLast_mem some)
    have other := digitUnit_ne_zero small (Nat.pos_of_ne_zero last)
    have head : ((Nat.digits 10 n).reverse.map digitUnit).head? = Option.some (digitUnit ((Nat.digits 10 n).getLast some)) := by
      rw [List.head?_map, List.head?_reverse, List.getLast?_eq_some_getLast some]
      rfl
    have filled : (Nat.digits 10 n).reverse.map digitUnit ≠ [] := by simpa using some
    rw [isWhole, head, decide_eq_true filled, decide_eq_true (by simpa using other)]
    rfl

theorem isMagnitude_of_parts (digits rest : List UInt16) (all : ∀ unit ∈ digits, isDigit unit = true)
    (stops : ∀ unit, rest.head? = some unit → isDigit unit = false) (whole : isWhole digits = true)
    (fraction : isFraction rest = true) : isMagnitude (digits ++ rest) = true := by
  obtain ⟨first, second⟩ := span_append all stops
  rw [isMagnitude, first, second, whole, fraction]
  rfl

theorem natText_isMagnitude (n : Nat) : isMagnitude (natText n) = true := by
  have parts := isMagnitude_of_parts _ [] (natText_digits n) (by simp) (natText_whole n) rfl
  rwa [List.append_nil] at parts

/-- No text of digits starts with a sign. -/
theorem head_of_isMagnitude {token : List UInt16} (magnitude : isMagnitude token = true) : token.head? ≠ some 0x2d := by
  intro sign
  obtain ⟨rest, rfl⟩ := List.head?_eq_some_iff.mp sign
  simp [isMagnitude, isWhole, isDigit] at magnitude

theorem isNumber_of_isMagnitude {token : List UInt16} (magnitude : isMagnitude token = true) :
    isNumber token = true ∧ isNumber (0x2d :: token) = true := by
  refine ⟨?_, by simpa [isNumber] using magnitude⟩
  rw [isNumber, if_neg (head_of_isMagnitude magnitude)]
  exact magnitude

theorem intText_isNumber (n : Int) : isNumber (intText n) = true := by
  obtain ⟨positive, negative⟩ := isNumber_of_isMagnitude (natText_isMagnitude n.natAbs)
  unfold intText
  split
  · exact negative
  · exact positive

variable (decimal : Decimal)

theorem Decimal.units_digits : ∀ unit ∈ decimal.units, isDigit unit = true := by
  intro unit member
  obtain ⟨digit, here, rfl⟩ := List.mem_map.mp member
  exact isDigit_digitUnit (decimal.digits digit here)

theorem Decimal.first_ne_zero : digitUnit decimal.first ≠ 0x30 :=
  digitUnit_ne_zero (decimal.digits _ List.mem_cons_self) decimal.leading

theorem Decimal.whole {token : List UInt16} (head : token.head? = decimal.units.head?) : isWhole token = true := by
  have first : token.head? = some (digitUnit decimal.first) := head
  have filled : token ≠ [] := by
    rintro rfl
    simp at first
  rw [isWhole, first, decide_eq_true filled, decide_eq_true (by simpa using decimal.first_ne_zero)]
  rfl

theorem isExponent_intText (n : Int) : isExponent (0x65 :: (if 0 ≤ n then 0x2b :: intText n else intText n)) = true := by
  have digits : isDigits (natText n.natAbs) = true := by
    have whole := natText_whole n.natAbs
    simp only [isWhole, Bool.and_eq_true] at whole
    rw [isDigits, whole.1, List.all_eq_true.mpr (natText_digits _)]
    rfl
  by_cases sign : 0 ≤ n
  · have text : intText n = natText n.natAbs := if_neg (by omega)
    simp [isExponent, sign, text, digits]
  · have text : intText n = 0x2d :: natText n.natAbs := if_pos (by omega)
    simp [isExponent, sign, text, digits]

theorem isFraction_point (digits rest : List UInt16) (all : ∀ unit ∈ digits, isDigit unit = true) (filled : digits ≠ [])
    (stops : ∀ unit, rest.head? = some unit → isDigit unit = false) (exponent : isExponent rest = true) :
    isFraction (0x2e :: (digits ++ rest)) = true := by
  obtain ⟨first, second⟩ := span_append all stops
  simp [isFraction, first, second, filled, exponent]

theorem Decimal.scientific (n : Int) :
    isMagnitude (digitUnit decimal.first :: (if decimal.rest = [] then [] else 0x2e :: decimal.rest.map digitUnit) ++
      0x65 :: (if 0 ≤ n then 0x2b :: intText n else intText n)) = true := by
  have first : ∀ unit ∈ [digitUnit decimal.first], isDigit unit = true := by
    intro unit member
    exact decimal.units_digits unit (List.mem_singleton.mp member ▸ List.mem_cons_self)
  have more : ∀ unit ∈ decimal.rest.map digitUnit, isDigit unit = true := fun unit member =>
    decimal.units_digits unit (List.mem_cons_of_mem _ member)
  have exponent := isExponent_intText n
  by_cases single : decimal.rest = []
  · rw [if_pos single]
    refine isMagnitude_of_parts _ _ first (by simp [isDigit]) (decimal.whole rfl) ?_
    simpa [isFraction] using exponent
  · rw [if_neg single]
    refine isMagnitude_of_parts _ (0x2e :: (decimal.rest.map digitUnit ++ _)) first (by simp [isDigit])
      (decimal.whole rfl) ?_
    exact isFraction_point _ _ more (by simpa using single) (by simp [isDigit]) exponent

theorem replicate_digits (count : Nat) : ∀ unit ∈ List.replicate count (0x30 : UInt16), isDigit unit = true := by
  intro unit member
  rw [List.eq_of_mem_replicate member]
  rfl

theorem Decimal.layout_isMagnitude : isMagnitude decimal.layout = true := by
  have digits := decimal.units_digits
  unfold Decimal.layout
  dsimp only
  split
  case isTrue plain =>
    split
    · have all : ∀ unit ∈ decimal.units ++ List.replicate (decimal.point.toNat - decimal.units.length) 0x30,
          isDigit unit = true := by
        intro unit member
        exact (List.mem_append.mp member).elim (digits unit) (replicate_digits _ unit)
      have parts := isMagnitude_of_parts _ [] all (by simp) (decimal.whole rfl) rfl
      rwa [List.append_nil] at parts
    · rename_i longer
      have some : 0 < decimal.point.toNat := by omega
      have shorter : decimal.point.toNat < decimal.units.length := by omega
      refine isMagnitude_of_parts _ _ (fun unit member => digits unit (List.mem_of_mem_take member)) (by simp [isDigit])
        (decimal.whole (by rw [List.head?_take, if_neg (by omega)])) ?_
      have fraction := isFraction_point (decimal.units.drop decimal.point.toNat) []
        (fun unit member => digits unit (List.mem_of_mem_drop member)) (by simpa using shorter) (by simp) rfl
      rwa [List.append_nil] at fraction
  case isFalse =>
    split
    · refine isMagnitude_of_parts [0x30] _ (by simp [isDigit]) (by simp [isDigit]) rfl ?_
      have fraction := isFraction_point (List.replicate (-decimal.point).toNat 0x30 ++ decimal.units) []
        (fun unit member => (List.mem_append.mp member).elim (replicate_digits _ unit) (digits unit))
        (by simp [Decimal.units]) (by simp) rfl
      rwa [List.append_nil] at fraction
    · exact decimal.scientific _

theorem Number.text_isNumber (ecvt : Float64 → Decimal) (number : Number) (finite : number.isFinite = true) :
    isNumber (number.text ecvt) = true := by
  cases number with
  | int value => exact intText_isNumber value.toInt
  | float bits =>
    have plain : bits.isFinite = true := finite
    rw [Number.text, dtoa, plain]
    simp only [Bool.not_true, Bool.false_eq_true, if_false]
    split
    · exact intText_isNumber _
    · obtain ⟨positive, negative⟩ := isNumber_of_isMagnitude (ecvt bits).layout_isMagnitude
      split
      · exact negative
      · exact positive

end Texts

section Integers

open JsonText

theorem digit_digitUnit {digit : Nat} (small : digit < 10) : Numeral.digit 10 (digitUnit digit) = some digit := by
  have all : ∀ n : Fin 10, Numeral.digit 10 (digitUnit n) = some n.val := by decide
  exact all ⟨digit, small⟩

theorem mapM_digitUnit {digits : List Nat} (small : ∀ digit ∈ digits, digit < 10) :
    (digits.map digitUnit).mapM (Numeral.digit 10) = some digits := by
  induction digits with
  | nil => rfl
  | cons digit rest ih =>
    obtain ⟨here, later⟩ := List.forall_mem_cons.mp small
    rw [List.map_cons, List.mapM_cons, digit_digitUnit here, ih later]
    rfl

theorem magnitude_natText (n : Nat) : Numeral.magnitude 10 (natText n) = some n := by
  unfold natText
  split
  case isTrue zero =>
    subst zero
    decide
  case isFalse positive =>
    have some := Nat.digits_ne_nil_iff_ne_zero (b := 10).mpr positive
    have small : ∀ digit ∈ (Nat.digits 10 n).reverse, digit < 10 := fun digit member =>
      Nat.digits_lt_base (by decide) (List.mem_reverse.mp member)
    rw [Numeral.magnitude, if_neg (by simpa using some), mapM_digitUnit small, Option.map_some, List.reverse_reverse,
      Nat.ofDigits_digits]

theorem decimal_natText {n : Nat} {negative : Bool} (fits : if negative then n ≤ 2 ^ 63 else n < 2 ^ 63) :
    Numeral.decimal negative (natText n) = some (if negative then -(n : Int) else n) := by
  rw [Numeral.decimal, magnitude_natText]
  cases negative with
  | true =>
    have bound : n ≤ 2 ^ 63 := by simpa using fits
    change (if n ≤ 2 ^ 63 then some (-(n : Int)) else none) = _
    rw [if_pos bound]
    rfl
  | false =>
    have bound : n < 2 ^ 63 := by simpa using fits
    change (if n < 2 ^ 63 then some (n : Int) else none) = _
    rw [if_pos bound]
    rfl

theorem not_whitespace_of_isDigit {unit : UInt16} (digit : isDigit unit = true) : Numeral.isWhitespace unit = false := by
  simp only [isDigit, Bool.and_eq_true, decide_eq_true_eq, UInt16.le_iff_toNat_le] at digit
  have low : 48 ≤ unit.toNat := digit.1
  have high : unit.toNat ≤ 57 := digit.2
  simp only [Numeral.isWhitespace, Bool.or_eq_false_iff, Bool.and_eq_false_iff, decide_eq_false_iff_not,
    beq_eq_false_iff_ne]
  omega

theorem trim_eq_self {text : List UInt16} (plain : ∀ unit ∈ text, Numeral.isWhitespace unit = false) :
    Numeral.trim text = text := by
  have kept : text.rdropWhile Numeral.isWhitespace = text := by
    induction text with
    | nil => rfl
    | cons first rest ih =>
      obtain ⟨here, later⟩ := List.forall_mem_cons.mp plain
      rw [Numeral.rdropWhile_cons here, ih later]
  have whole : text.dropWhile Numeral.isWhitespace = text := by
    cases text with
    | nil => rfl
    | cons first rest => rw [List.dropWhile_cons_of_neg (by simp [plain first List.mem_cons_self])]
  rw [Numeral.trim, whole, kept]

/-- A text of digits is no hexadecimal one. -/
theorem unsigned_digits (negative : Bool) {text : List UInt16} (digits : ∀ unit ∈ text, isDigit unit = true) :
    Numeral.unsigned negative text = Numeral.decimal negative text := by
  unfold Numeral.unsigned
  split
  · rename_i mark source
    have second := digits mark (by simp)
    rw [if_neg]
    rintro (rfl | rfl) <;> simp [isDigit] at second
  · rfl

theorem parse_unsigned {text : List UInt16} (digits : ∀ unit ∈ text, isDigit unit = true) :
    Numeral.parse text = Numeral.decimal false text := by
  rw [Numeral.parse, trim_eq_self fun unit member => not_whitespace_of_isDigit (digits unit member)]
  split
  · exact absurd (digits 0x2d List.mem_cons_self) (by decide)
  · exact absurd (digits 0x2b List.mem_cons_self) (by decide)
  · exact unsigned_digits false digits

theorem parse_negative {text : List UInt16} (digits : ∀ unit ∈ text, isDigit unit = true) :
    Numeral.parse (0x2d :: text) = Numeral.decimal true text := by
  have plain : ∀ unit ∈ 0x2d :: text, Numeral.isWhitespace unit = false :=
    List.forall_mem_cons.mpr ⟨by decide, fun unit member => not_whitespace_of_isDigit (digits unit member)⟩
  rw [Numeral.parse, trim_eq_self plain]
  exact unsigned_digits true digits

theorem parse_intText {n : Int} (fits : -2 ^ 63 ≤ n ∧ n < 2 ^ 63) : Numeral.parse (intText n) = some n := by
  have digits := natText_digits n.natAbs
  unfold intText
  split
  case isTrue negative =>
    have value : -(n.natAbs : Int) = n := by omega
    rw [parse_negative digits, decimal_natText (by simp; omega), if_pos rfl, value]
  case isFalse positive =>
    have value : (n.natAbs : Int) = n := by omega
    rw [parse_unsigned digits, decimal_natText (by simp; omega), if_neg (by simp), value]

def Number.integer : Number → Option Int
  | .int value => some value.toInt
  | .float bits => if bits.isFinite then safeInteger bits else none

theorem Number.text_integer (ecvt : Float64 → Decimal) {number : Number} {n : Int} (whole : number.integer = some n) :
    number.isFinite = true ∧ number.text ecvt = intText n := by
  cases number with
  | int value =>
    cases whole
    exact ⟨rfl, rfl⟩
  | float bits =>
    simp only [Number.integer] at whole
    split at whole
    case isTrue finite =>
      refine ⟨finite, ?_⟩
      simp [Number.text, dtoa, finite, whole]
    case isFalse => cases whole

end Integers

section Handles

theorem shift_le {n : Nat} (bounded : n ≤ 2 ^ 63) : 2 ^ (n.log2 + 1 - 53) ≤ 2 ^ 11 := by
  have log : n.log2 ≤ 63 := by
    by_cases zero : n = 0
    · subst zero
      decide
    · have := (Nat.log2_lt zero).mpr (show n < 2 ^ 64 by omega)
      omega
  exact Nat.pow_le_pow_right (by decide) (by omega)

theorem roundInt_near {value : Int} (range : -2 ^ 63 ≤ value ∧ value < 2 ^ 63) :
    value - 2 ^ 11 ≤ Float64.roundInt value ∧ Float64.roundInt value ≤ value + 2 ^ 11 := by
  have near := Float64.roundNat_near value.natAbs
  have unit := shift_le (n := value.natAbs) (by omega)
  unfold Float64.roundInt
  split <;> omega

theorem roundInt_eq_iff (value : Int) : Float64.roundInt value = value ↔ Float64.roundNat value.natAbs = value.natAbs := by
  unfold Float64.roundInt
  split <;> omega

/-- A `JSInt` gives back the number that it was made of exactly when the number has at most 53
    significant bits; the largest ones even change their sign. -/
theorem int64Value_eq_iff (value : Int) (range : -2 ^ 63 ≤ value ∧ value < 2 ^ 63) :
    int64Value value = value ↔ 2 ^ (value.natAbs.log2 + 1 - 53) ∣ value.natAbs := by
  rw [← Float64.roundNat_eq_iff]
  unfold int64Value
  split
  case isTrue small =>
    refine iff_of_true rfl (Float64.roundNat_small ?_)
    omega
  case isFalse =>
    have near := roundInt_near range
    rw [Int.bmod_eq_iff (by decide), ← roundInt_eq_iff]
    constructor
    · rintro ⟨_, _, divides⟩
      -- a difference of less than 2^64 that 2^64 divides
      obtain ⟨factor, multiple⟩ := divides
      push_cast at multiple
      omega
    · intro same
      rw [same, Int.sub_self]
      refine ⟨?_, ?_, Int.dvd_zero _⟩ <;> push_cast <;> omega

theorem int64Value_eq_iff_odd : int64Value 9007199254740993 ≠ 9007199254740993 := by
  have iff := int64Value_eq_iff 9007199254740993 (by decide)
  rw [ne_eq, iff]
  decide

end Handles

end Sano.Runtime
