import Sano.Base.Encoding

namespace Utf8

section Codec

def encodePoint (point : Nat) : List UInt8 :=
  if point < 0x80 then [.ofNat point]
  else if point < 0x800 then [.ofNat (0xc0 + point / 0x40), .ofNat (0x80 + point % 0x40)]
  else if point < 0x10000 then
    [.ofNat (0xe0 + point / 0x1000), .ofNat (0x80 + point / 0x40 % 0x40), .ofNat (0x80 + point % 0x40)]
  else
    [.ofNat (0xf0 + point / 0x40000), .ofNat (0x80 + point / 0x1000 % 0x40), .ofNat (0x80 + point / 0x40 % 0x40),
      .ofNat (0x80 + point % 0x40)]

def encode (points : List Nat) : List UInt8 := points.flatMap encodePoint

def trailing (first : Nat) : Option Nat :=
  if first < 0xc0 then none
  else if first < 0xe0 then some 1
  else if first < 0xf0 then some 2
  else if first < 0xf8 then some 3
  else if first < 0xfc then some 4
  else if first < 0xfe then some 5
  else none

def least : Nat → Nat
  | 1 => 0x80
  | 2 => 0x800
  | 3 => 0x10000
  | 4 => 0x200000
  | _ => 0x4000000

def isTrailing (byte : UInt8) : Bool := 0x80 ≤ byte && byte < 0xc0

def follow : Nat → Nat → List UInt8 → Option (Nat × List UInt8)
  | 0, point, rest => some (point, rest)
  | _ + 1, _, [] => none
  | count + 1, point, byte :: rest =>
    if isTrailing byte then follow count (point * 0x40 + byte.toNat % 0x40) rest else none

/-- The first sequence of up to six bytes and what stands after it. Overlong
    sequences are refused, surrogates are not. -/
def decodePoint : List UInt8 → Option (Nat × List UInt8)
  | [] => none
  | first :: rest =>
    if first.toNat < 0x80 then some (first.toNat, rest)
    else do
      let count ← trailing first.toNat
      let (point, rest) ← follow count (first.toNat % 2 ^ (6 - count)) rest
      if point < least count then none else some (point, rest)

def decode : Nat → List UInt8 → Option (List Nat)
  | _, [] => some []
  | 0, _ :: _ => none
  | fuel + 1, bytes =>
    match decodePoint bytes with
    | some (point, rest) =>
      if 0x110000 ≤ point ∨ Utf16.isSurrogate point then none else (decode fuel rest).map (point :: ·)
    | none => none

end Codec

section Sequences

@[simp]
theorem encode_cons (point : Nat) (rest : List Nat) : encode (point :: rest) = encodePoint point ++ encode rest := rfl

theorem follow_byte {count point low : Nat} (small : low < 0x40) (rest : List UInt8) :
    follow (count + 1) point (.ofNat (0x80 + low) :: rest) = follow count (point * 0x40 + low) rest := by
  have kept : (UInt8.ofNat (0x80 + low)).toNat = 0x80 + low := UInt8.toNat_ofNat_of_lt' (by unfold UInt8.size; omega)
  have marked : isTrailing (.ofNat (0x80 + low)) = true := by
    simp only [isTrailing, Bool.and_eq_true, decide_eq_true_eq, UInt8.le_iff_toNat_le, UInt8.lt_iff_toNat_lt, kept]
    exact ⟨by simp, by simp; omega⟩
  rw [follow, if_pos marked, kept, show (0x80 + low) % 0x40 = low by omega]

theorem decodePoint_first (count : Nat) {lead high : Nat} {rest after : List UInt8} {point : Nat}
    (known : trailing (lead + high) = some count) (narrow : lead + high < 0x100)
    (masked : (lead + high) % 2 ^ (6 - count) = high) (follows : follow count high rest = some (point, after))
    (needed : least count ≤ point) :
    decodePoint (.ofNat (lead + high) :: rest) = some (point, after) := by
  have kept : (UInt8.ofNat (lead + high)).toNat = lead + high := UInt8.toNat_ofNat_of_lt' (by simpa [UInt8.size] using narrow)
  have large : ¬ lead + high < 0x80 := by
    intro small
    simp [trailing, show lead + high < 0xc0 by omega] at known
  rw [decodePoint, kept, if_neg large, known, Option.bind_eq_bind, Option.bind_some, masked, follows]
  exact if_neg (Nat.not_lt.mpr needed)

theorem decodePoint_encodePoint {point : Nat} (bounded : point < 0x110000) (rest : List UInt8) :
    decodePoint (encodePoint point ++ rest) = some (point, rest) := by
  unfold encodePoint
  split
  · rename_i ascii
    have kept : (UInt8.ofNat point).toNat = point := UInt8.toNat_ofNat_of_lt' (by unfold UInt8.size; omega)
    simp [decodePoint, kept, ascii]
  · split
    · simp only [List.cons_append, List.nil_append]
      refine decodePoint_first 1 ?_ (by omega) (by omega) ?_ (by simp only [least]; omega)
      · rw [trailing, if_neg (by omega), if_pos (by omega)]
      · rw [follow_byte (by omega), follow]
        congr 2
        omega
    · split
      · simp only [List.cons_append, List.nil_append]
        refine decodePoint_first 2 ?_ (by omega) (by omega) ?_ (by simp only [least]; omega)
        · rw [trailing, if_neg (by omega), if_neg (by omega), if_pos (by omega)]
        · rw [follow_byte (by omega), follow_byte (by omega), follow]
          congr 2
          omega
      · simp only [List.cons_append, List.nil_append]
        refine decodePoint_first 3 ?_ (by omega) (by omega) ?_ (by simp only [least]; omega)
        · rw [trailing, if_neg (by omega), if_neg (by omega), if_neg (by omega), if_pos (by omega)]
        · rw [follow_byte (by omega), follow_byte (by omega), follow_byte (by omega), follow]
          congr 2
          omega

end Sequences

section Texts

theorem encodePoint_ne_nil (point : Nat) : encodePoint point ≠ [] := by
  unfold encodePoint
  split_ifs <;> simp

theorem encodePoint_ascii {point : Nat} (ascii : point < 0x80) : encodePoint point = [.ofNat point] := if_pos ascii

/-- Every byte of a longer sequence has its top bit. -/
theorem encodePoint_wide {point : Nat} (bounded : point < 0x110000) (wide : 0x80 ≤ point) {byte : UInt8}
    (member : byte ∈ encodePoint point) : 0x80 ≤ byte.toNat := by
  have marked (n : Nat) (low : 0x80 ≤ n) (high : n < 0x100) : 0x80 ≤ (UInt8.ofNat n).toNat := by
    rwa [UInt8.toNat_ofNat_of_lt' (by simpa [UInt8.size] using high)]
  unfold encodePoint at member
  split_ifs at member
  · omega
  all_goals
    simp only [List.mem_cons, List.not_mem_nil, or_false] at member
    rcases member with rfl | rfl | rfl | rfl
  all_goals exact marked _ (by omega) (by omega)

/-- Read up to the NUL, the bytes of a text end where the text has its first U+0000. -/
theorem encode_takeWhile {points : List Nat} (bounded : ∀ point ∈ points, point < 0x110000) :
    (encode points ++ [0]).takeWhile (· ≠ 0) = encode (points.takeWhile (· ≠ 0)) := by
  induction points with
  | nil => rfl
  | cons point points ih =>
    have later := ih fun point member => bounded point (List.mem_cons_of_mem _ member)
    rw [encode_cons, List.append_assoc]
    by_cases zero : point = 0
    · subst zero
      rfl
    · have passes : ∀ byte ∈ encodePoint point, (decide (byte ≠ 0)) = true := by
        intro byte member
        rw [decide_eq_true_eq]
        rintro rfl
        by_cases ascii : point < 0x80
        · rw [encodePoint_ascii ascii, List.mem_singleton] at member
          have := congrArg UInt8.toNat member
          rw [UInt8.toNat_ofNat_of_lt' (by unfold UInt8.size; omega)] at this
          exact zero this.symm
        · have := encodePoint_wide (bounded point List.mem_cons_self) (by omega) member
          simp at this
      rw [List.takeWhile_append_of_pos passes, later, List.takeWhile_cons_of_pos (by simpa using zero), encode_cons]

/-- The run of ASCII at the start of the bytes is the one of the text. -/
theorem span_encode {points : List Nat} (bounded : ∀ point ∈ points, point < 0x110000) :
    (encode points).takeWhile (·.toNat < 0x80) = encode (points.takeWhile (· < 0x80)) ∧
      (encode points).dropWhile (·.toNat < 0x80) = encode (points.dropWhile (· < 0x80)) := by
  induction points with
  | nil => exact ⟨rfl, rfl⟩
  | cons point points ih =>
    have later := ih fun point member => bounded point (List.mem_cons_of_mem _ member)
    by_cases ascii : point < 0x80
    · have kept : (UInt8.ofNat point).toNat < 0x80 := by
        rwa [UInt8.toNat_ofNat_of_lt' (by unfold UInt8.size; omega)]
      rw [encode_cons, encodePoint_ascii ascii, List.singleton_append, List.takeWhile_cons_of_pos (by simpa using kept),
        List.dropWhile_cons_of_pos (by simpa using kept), List.takeWhile_cons_of_pos (by simpa using ascii),
        List.dropWhile_cons_of_pos (by simpa using ascii), later.1, later.2, encode_cons, encodePoint_ascii ascii]
      exact ⟨rfl, rfl⟩
    · rw [List.takeWhile_cons_of_neg (by simpa using ascii), List.dropWhile_cons_of_neg (by simpa using ascii)]
      rcases bytes : encodePoint point with _ | ⟨first, rest⟩
      · exact absurd bytes (encodePoint_ne_nil point)
      · have wide := encodePoint_wide (bounded point List.mem_cons_self) (by omega) (bytes ▸ List.mem_cons_self)
        rw [encode_cons, bytes, List.cons_append, List.takeWhile_cons_of_neg (by simpa using wide),
          List.dropWhile_cons_of_neg (by simpa using wide)]
        exact ⟨rfl, rfl⟩

theorem encode_eq_nil {points : List Nat} : encode points = [] ↔ points = [] := by
  cases points with
  | nil => exact iff_of_true rfl rfl
  | cons point points => simp [encodePoint_ne_nil]

theorem length_encode_ascii {points : List Nat} (ascii : ∀ point ∈ points, point < 0x80) :
    (encode points).length = points.length := by
  induction points with
  | nil => rfl
  | cons point points ih =>
    obtain ⟨here, later⟩ := List.forall_mem_cons.mp ascii
    rw [encode_cons, encodePoint_ascii here, List.singleton_append, List.length_cons, List.length_cons, ih later]

theorem decode_encode {points : List Nat} (bounded : ∀ point ∈ points, point < 0x110000) (fuel : Nat)
    (enough : points.length ≤ fuel) :
    decode fuel (encode points) = if points.any Utf16.isSurrogate then none else some points := by
  induction points generalizing fuel with
  | nil => cases fuel <;> rfl
  | cons point points ih =>
    obtain ⟨fuel, rfl⟩ : ∃ more, fuel = more + 1 := ⟨fuel - 1, by simp at enough; omega⟩
    have here := bounded point List.mem_cons_self
    have later := ih (fun point member => bounded point (List.mem_cons_of_mem _ member)) fuel (by simpa using enough)
    have read := decodePoint_encodePoint here (encode points)
    rcases bytes : encodePoint point with _ | ⟨first, rest⟩
    · exact absurd bytes (encodePoint_ne_nil point)
    · rw [bytes, List.cons_append] at read
      rw [encode_cons, bytes, List.cons_append]
      simp only [decode, read, later, Nat.not_le.mpr here, false_or, List.any_cons]
      by_cases lone : Utf16.isSurrogate point = true
      · simp [lone]
      · simp only [lone, Bool.false_eq_true, if_false, Bool.false_or]
        split <;> rfl

theorem length_le_encode (points : List Nat) : points.length ≤ (encode points).length := by
  induction points with
  | nil => exact Nat.le_refl 0
  | cons point points ih =>
    have := List.length_pos_iff.mpr (encodePoint_ne_nil point)
    rw [encode_cons, List.length_append, List.length_cons]
    omega

theorem encode_ascii_iff {points : List Nat} (bounded : ∀ point ∈ points, point < 0x110000) :
    (∀ byte ∈ encode points, byte.toNat < 0x80) ↔ ∀ point ∈ points, point < 0x80 := by
  constructor
  · intro narrow point member
    by_contra wide
    rcases bytes : encodePoint point with _ | ⟨first, rest⟩
    · exact encodePoint_ne_nil point bytes
    · have there : first ∈ encodePoint point := bytes ▸ List.mem_cons_self
      have small := narrow first (List.mem_flatMap.mpr ⟨point, member, there⟩)
      have large := encodePoint_wide (bounded point member) (by omega) there
      omega
  · intro ascii byte member
    obtain ⟨point, there, inside⟩ := List.mem_flatMap.mp member
    have small := ascii point there
    rw [encodePoint_ascii small, List.mem_singleton] at inside
    rwa [inside, UInt8.toNat_ofNat_of_lt' (by unfold UInt8.size; omega)]

/-- A code point above ASCII takes more bytes than UTF-16 units. -/
theorem units_lt_bytes {point : Nat} (wide : 0x80 ≤ point) :
    (Utf16.encodePoint point).length < (encodePoint point).length := by
  unfold Utf16.encodePoint encodePoint
  split_ifs <;> first | omega | simp

theorem units_le_bytes (points : List Nat) : (Utf16.encode points).length ≤ (encode points).length := by
  induction points with
  | nil => exact Nat.le_refl 0
  | cons point points ih =>
    rw [encode_cons, Utf16.encode_cons, List.length_append, List.length_append]
    by_cases ascii : point < 0x80
    · rw [encodePoint_ascii ascii, Utf16.encodePoint, if_pos (by omega)]
      simp only [List.length_singleton]
      omega
    · have := units_lt_bytes (Nat.not_lt.mp ascii)
      omega

theorem bytes_le_units (points : List Nat) : (encode points).length ≤ 3 * (Utf16.encode points).length := by
  induction points with
  | nil => exact Nat.le_refl 0
  | cons point points ih =>
    have here : (encodePoint point).length ≤ 3 * (Utf16.encodePoint point).length := by
      unfold Utf16.encodePoint encodePoint
      split_ifs <;> first | omega | simp
    rw [encode_cons, Utf16.encode_cons, List.length_append, List.length_append]
    omega

/-- Below U+0800 a code point takes one byte or two. -/
theorem length_encode_short {points : List Nat} (short : ∀ point ∈ points, point < 0x800) :
    (encode points).length = points.length + points.countP (0x80 ≤ ·) := by
  induction points with
  | nil => rfl
  | cons point points ih =>
    obtain ⟨here, later⟩ := List.forall_mem_cons.mp short
    rw [encode_cons, List.length_append, ih later, List.length_cons, List.countP_cons, encodePoint]
    by_cases ascii : point < 0x80
    · simp [ascii, Nat.not_le.mpr ascii]
      omega
    · simp [ascii, here, Nat.not_lt.mp ascii]
      omega

/-- The bytes read as characters are the text exactly when it is all ASCII. -/
theorem latin_iff (points : List Nat) :
    (encode points).map UInt8.toUInt16 = Utf16.encode points ↔ ∀ point ∈ points, point < 0x80 := by
  induction points with
  | nil => simp [encode, Utf16.encode]
  | cons point points ih =>
    rw [encode_cons, Utf16.encode_cons, List.map_append, List.forall_mem_cons, ← ih]
    by_cases ascii : point < 0x80
    · have same : (UInt8.ofNat point).toUInt16 = UInt16.ofNat point := by
        rw [← UInt16.toNat_inj, UInt8.toNat_toUInt16, UInt8.toNat_ofNat_of_lt' (by unfold UInt8.size; omega),
          UInt16.toNat_ofNat_of_lt' (by unfold UInt16.size; omega)]
      rw [encodePoint_ascii ascii, Utf16.encodePoint, if_pos (by omega)]
      simp [same, ascii]
    · refine iff_of_false (fun same => ?_) fun both => ascii both.1
      have lengths := congrArg List.length same
      have more := units_lt_bytes (Nat.not_lt.mp ascii)
      have rest := units_le_bytes points
      simp only [List.length_append, List.length_map] at lengths
      omega

end Texts

end Utf8
