import Mathlib.Algebra.Order.Ring.Int

abbrev Float64 := BitVec 64

namespace Float64

def sign (bits : Float64) : Bool := bits.getLsbD 63

def exponent (bits : Float64) : Nat := (bits.extractLsb' 52 11).toNat

def fraction (bits : Float64) : Nat := (bits.extractLsb' 0 52).toNat

def isFinite (bits : Float64) : Bool := bits.exponent != 2047

def magnitude (bits : Float64) : Nat :=
  if bits.exponent = 0 then 0
  else (2 ^ 52 + bits.fraction) * 2 ^ (bits.exponent - 1075) / 2 ^ (1075 - bits.exponent)

def clampInt64 (n : Int) : Int := max (-9223372036854775808) (min n 9223372036854775807)

/-- Conversion to a 64-bit integer: towards zero, saturating, undefined for
    NaN and the infinities. -/
def toInt (bits : Float64) : Option Int :=
  if bits.isFinite then some (clampInt64 (if bits.sign then -bits.magnitude else bits.magnitude)) else none

def roundNat (n : Nat) : Nat :=
  let shift := n.log2 + 1 - 53
  let kept := n / 2 ^ shift
  let lost := n % 2 ^ shift
  let up := if 2 ^ shift < 2 * lost ∨ (2 ^ shift = 2 * lost ∧ kept % 2 = 1) then 1 else 0
  (kept + up) * 2 ^ shift

def roundInt (n : Int) : Int := if n < 0 then -roundNat n.natAbs else roundNat n.natAbs

def ofNat (n : Nat) : Float64 :=
  if n = 0 then 0#64 else BitVec.ofNat 64 ((1023 + n.log2) * 2 ^ 52 + (n - 2 ^ n.log2) * 2 ^ (52 - n.log2))

theorem roundNat_small {n : Nat} (small : n < 2 ^ 53) : roundNat n = n := by
  have shift : n.log2 + 1 - 53 = 0 := by
    by_cases zero : n = 0
    · subst zero
      rfl
    · have := (Nat.log2_lt zero).mpr small
      omega
  simp [roundNat, shift, Nat.mod_one]

/-- At most 53 significant bits. -/
theorem roundNat_eq_iff (n : Nat) : roundNat n = n ↔ 2 ^ (n.log2 + 1 - 53) ∣ n := by
  unfold roundNat
  dsimp only
  have positive : 0 < 2 ^ (n.log2 + 1 - 53) := Nat.two_pow_pos _
  generalize 2 ^ (n.log2 + 1 - 53) = unit at positive
  constructor
  · intro same
    exact ⟨_, same.symm.trans (Nat.mul_comm _ _)⟩
  · intro divides
    have nothing : n % unit = 0 := Nat.mod_eq_zero_of_dvd divides
    rw [nothing, if_neg (by omega), Nat.add_zero]
    exact Nat.div_mul_cancel divides

theorem roundNat_near (n : Nat) : n < roundNat n + 2 ^ (n.log2 + 1 - 53) ∧ roundNat n ≤ n + 2 ^ (n.log2 + 1 - 53) := by
  unfold roundNat
  dsimp only
  have positive : 0 < 2 ^ (n.log2 + 1 - 53) := Nat.two_pow_pos _
  generalize 2 ^ (n.log2 + 1 - 53) = unit at positive
  have parts := Nat.div_add_mod n unit
  have small := Nat.mod_lt n positive
  rw [Nat.add_mul, Nat.mul_comm (n / unit) unit]
  split <;> omega

theorem toInt_isSome (bits : Float64) : bits.toInt.isSome = bits.isFinite := by
  unfold toInt
  split
  · rename_i finite
    simp [finite]
  · rename_i special
    simpa using special

end Float64

namespace Utf16

def isHigh (unit : UInt16) : Bool := 0xd800 ≤ unit && unit < 0xdc00

def isLow (unit : UInt16) : Bool := 0xdc00 ≤ unit && unit < 0xe000

def combine (high low : UInt16) : Nat := 0x10000 + (high.toNat % 0x400) * 0x400 + low.toNat % 0x400

def points : List UInt16 → List Nat
  | [] => []
  | [unit] => [unit.toNat]
  | high :: low :: rest =>
    if isHigh high && isLow low then combine high low :: points rest
    else high.toNat :: points (low :: rest)

def isSurrogate (point : Nat) : Bool := 0xd800 ≤ point && point < 0xe000

def encodePoint (point : Nat) : List UInt16 :=
  if point < 0x10000 then [.ofNat point]
  else [.ofNat (0xd800 + (point - 0x10000) / 0x400), .ofNat (0xdc00 + (point - 0x10000) % 0x400)]

def encode (points : List Nat) : List UInt16 := points.flatMap encodePoint

def Scalar (point : Nat) : Prop := point < 0x110000 ∧ isSurrogate point = false

def isWellFormed : List UInt16 → Bool
  | [] => true
  | [unit] => !(isHigh unit || isLow unit)
  | high :: low :: rest =>
    if isHigh high && isLow low then isWellFormed rest
    else !(isHigh high || isLow high) && isWellFormed (low :: rest)

@[simp]
theorem encode_cons (point : Nat) (rest : List Nat) : encode (point :: rest) = encodePoint point ++ encode rest := rfl

theorem isHigh_iff (unit : UInt16) : isHigh unit = true ↔ 0xd800 ≤ unit.toNat ∧ unit.toNat < 0xdc00 := by
  simp [isHigh, UInt16.le_iff_toNat_le, UInt16.lt_iff_toNat_lt]

theorem isLow_iff (unit : UInt16) : isLow unit = true ↔ 0xdc00 ≤ unit.toNat ∧ unit.toNat < 0xe000 := by
  simp [isLow, UInt16.le_iff_toNat_le, UInt16.lt_iff_toNat_lt]

theorem isSurrogate_iff (point : Nat) : isSurrogate point = true ↔ 0xd800 ≤ point ∧ point < 0xe000 := by
  simp [isSurrogate]

theorem encodePoint_unit (unit : UInt16) : encodePoint unit.toNat = [unit] := by
  have small := unit.toNat_lt
  rw [encodePoint, if_pos (by omega), UInt16.ofNat_toNat]

theorem encodePoint_combine {high low : UInt16} (first : isHigh high = true) (second : isLow low = true) :
    encodePoint (combine high low) = [high, low] := by
  rw [isHigh_iff] at first
  rw [isLow_iff] at second
  have top : 0xd800 + (combine high low - 0x10000) / 0x400 = high.toNat := by
    unfold combine
    omega
  have bottom : 0xdc00 + (combine high low - 0x10000) % 0x400 = low.toNat := by
    unfold combine
    omega
  rw [encodePoint, if_neg (by unfold combine; omega), top, bottom, UInt16.ofNat_toNat, UInt16.ofNat_toNat]

theorem points_pair {high low : UInt16} (rest : List UInt16) (first : isHigh high = true) (second : isLow low = true) :
    points (high :: low :: rest) = combine high low :: points rest := by
  rw [points, first, second]
  rfl

theorem points_single {unit : UInt16} (rest : List UInt16) (alone : isHigh unit = false) :
    points (unit :: rest) = unit.toNat :: points rest := by
  cases rest with
  | nil => rfl
  | cons next rest =>
    rw [points, alone]
    rfl

theorem encode_points (units : List UInt16) : encode (points units) = units := by
  induction units using points.induct with
  | case1 => rfl
  | case2 unit => simp [points, encode, encodePoint_unit]
  | case3 high low rest pair ih =>
    obtain ⟨first, second⟩ := Bool.and_eq_true_iff.mp pair
    rw [points_pair rest first second, encode_cons, encodePoint_combine first second, ih]
    rfl
  | case4 high low rest apart ih =>
    rw [points, if_neg apart, encode_cons, encodePoint_unit, ih]
    rfl

theorem points_lt {units : List UInt16} {point : Nat} (member : point ∈ points units) : point < 0x110000 := by
  induction units using points.induct with
  | case1 => simp [points] at member
  | case2 unit =>
    have small := unit.toNat_lt
    simp only [points, List.mem_singleton] at member
    omega
  | case3 high low rest pair ih =>
    rw [points, if_pos pair, List.mem_cons] at member
    rcases member with rfl | member
    · unfold combine
      omega
    · exact ih member
  | case4 high low rest apart ih =>
    have small := high.toNat_lt
    rw [points, if_neg apart, List.mem_cons] at member
    rcases member with rfl | member
    · omega
    · exact ih member

theorem points_encodePoint {point : Nat} (scalar : Scalar point) (rest : List UInt16) :
    points (encodePoint point ++ rest) = point :: points rest := by
  obtain ⟨bounded, plain⟩ := scalar
  unfold encodePoint
  split
  · rename_i small
    have kept : (UInt16.ofNat point).toNat = point := UInt16.toNat_ofNat_of_lt (by simpa [UInt16.size] using small)
    have alone : isHigh (.ofNat point) = false := by
      rw [Bool.eq_false_iff, ne_eq, isSurrogate_iff] at plain
      rw [Bool.eq_false_iff, ne_eq, isHigh_iff, kept]
      omega
    rw [List.singleton_append, points_single rest alone, kept]
  · rename_i large
    have top : (UInt16.ofNat (0xd800 + (point - 0x10000) / 0x400)).toNat = 0xd800 + (point - 0x10000) / 0x400 :=
      UInt16.toNat_ofNat_of_lt (by unfold UInt16.size; omega)
    have bottom : (UInt16.ofNat (0xdc00 + (point - 0x10000) % 0x400)).toNat = 0xdc00 + (point - 0x10000) % 0x400 :=
      UInt16.toNat_ofNat_of_lt (by unfold UInt16.size; omega)
    have whole : combine (.ofNat (0xd800 + (point - 0x10000) / 0x400)) (.ofNat (0xdc00 + (point - 0x10000) % 0x400)) =
        point := by
      rw [combine, top, bottom]
      omega
    rw [List.cons_append, List.singleton_append, points_pair rest, whole]
    · rw [isHigh_iff, top]
      omega
    · rw [isLow_iff, bottom]
      omega

theorem points_encode {text : List Nat} (scalar : ∀ point ∈ text, Scalar point) : points (encode text) = text := by
  induction text with
  | nil => rfl
  | cons point rest ih =>
    rw [encode_cons, points_encodePoint (scalar point List.mem_cons_self),
      ih fun point member => scalar point (List.mem_cons_of_mem _ member)]

theorem scalar_combine (high low : UInt16) : Scalar (combine high low) := by
  constructor
  · unfold combine
    omega
  · rw [Bool.eq_false_iff, ne_eq, isSurrogate_iff]
    unfold combine
    omega

theorem scalar_unit_iff (unit : UInt16) : Scalar unit.toNat ↔ (!(isHigh unit || isLow unit)) = true := by
  have small := unit.toNat_lt
  rw [Bool.not_eq_true', Bool.or_eq_false_iff, Bool.eq_false_iff, Bool.eq_false_iff, ne_eq, ne_eq, isHigh_iff, isLow_iff,
    Scalar, Bool.eq_false_iff, ne_eq, isSurrogate_iff]
  omega

theorem isWellFormed_iff (units : List UInt16) :
    isWellFormed units = true ↔ ∀ point ∈ points units, Scalar point := by
  induction units using points.induct with
  | case1 => simp [isWellFormed, points]
  | case2 unit => simpa [isWellFormed, points] using (scalar_unit_iff unit).symm
  | case3 high low rest pair ih =>
    rw [isWellFormed, if_pos pair, points, if_pos pair, List.forall_mem_cons, ih,
      and_iff_right (scalar_combine high low)]
  | case4 high low rest apart ih =>
    rw [isWellFormed, if_neg apart, points, if_neg apart, List.forall_mem_cons, Bool.and_eq_true, ih, scalar_unit_iff]

theorem zero_mem_points (units : List UInt16) : 0 ∈ points units ↔ 0 ∈ units := by
  have zero (unit : UInt16) : 0 = unit.toNat ↔ 0 = unit := by
    rw [← UInt16.toNat_inj]
    rfl
  induction units using points.induct with
  | case1 => simp [points]
  | case2 unit => simpa [points] using zero unit
  | case3 high low rest pair ih =>
    obtain ⟨first, second⟩ := Bool.and_eq_true_iff.mp pair
    rw [isHigh_iff] at first
    rw [isLow_iff] at second
    have none : ¬ 0 = combine high low := by
      unfold combine
      omega
    have left : ¬ 0 = high := by rw [← zero]; omega
    have right : ¬ 0 = low := by rw [← zero]; omega
    rw [points, if_pos pair, List.mem_cons, List.mem_cons, List.mem_cons, or_iff_right none, or_iff_right left,
      or_iff_right right]
    exact ih
  | case4 high low rest apart ih =>
    rw [points, if_neg apart, List.mem_cons, List.mem_cons, zero]
    exact or_congr_right ih

theorem points_head (units : List UInt16) (unit : UInt16) (plain : isHigh unit = false) :
    (points units).head? = some unit.toNat ↔ units.head? = some unit := by
  have small := unit.toNat_lt
  cases units with
  | nil => simp [points]
  | cons first rest =>
    by_cases high : isHigh first = true
    · have other : first ≠ unit := fun same => by simp [same, plain] at high
      have distinct : first.toNat ≠ unit.toNat := fun same => other (UInt16.toNat_inj.mp same)
      cases rest with
      | nil => simp [points, other, distinct]
      | cons second rest =>
        rw [points]
        split
        · have large : combine first second ≠ unit.toNat := by
            unfold combine
            omega
          simp [other, large]
        · simp [other, distinct]
    · rw [points_single rest (by simpa using high)]
      simp [UInt16.toNat_inj]

/-- The ASCII run at the start of a text has as many units as code points. -/
theorem points_ascii (units : List UInt16) :
    ((points units).takeWhile (· < 0x80)).length = (units.takeWhile (·.toNat < 0x80)).length := by
  induction units with
  | nil => rfl
  | cons unit rest ih =>
    by_cases ascii : unit.toNat < 0x80
    · have alone : isHigh unit = false := by
        rw [Bool.eq_false_iff, ne_eq, isHigh_iff]
        omega
      rw [points_single rest alone, List.takeWhile_cons_of_pos (by simpa using ascii),
        List.takeWhile_cons_of_pos (by simpa using ascii), List.length_cons, List.length_cons, ih]
    · rw [List.takeWhile_cons_of_neg (by simpa using ascii)]
      cases rest with
      | nil => simp [points, ascii]
      | cons next rest =>
        rw [points]
        split
        · have large : ¬ combine unit next < 0x80 := by
            unfold combine
            omega
          rw [List.takeWhile_cons_of_neg (by simpa using large)]
          rfl
        · rw [List.takeWhile_cons_of_neg (by simpa using ascii)]
          rfl

end Utf16
