import Sano.Base.Encoding
import Sano.Base.Numeral
import Sano.Base.Split

namespace Sano.Render.Parse

abbrev Text := List UInt16

def text (literal : String) : Text := Utf16.encode (literal.toList.map Char.toNat)

inductive Fault where
  | formatException
  | rangeError
deriving DecidableEq

section Colors

structure Color where
  value : BitVec 32
deriving DecidableEq

def Color.ofInt (value : Int) : Color := ⟨BitVec.ofInt 32 value⟩

def Color.channel (mask : BitVec 32) (shift : Nat) (c : Color) : Nat := ((mask &&& c.value) >>> shift).toNat

def Color.alpha : Color → Nat := channel 0xff000000 24

def Color.red : Color → Nat := channel 0x00ff0000 16

def Color.green : Color → Nat := channel 0x0000ff00 8

def Color.blue : Color → Nat := channel 0x000000ff 0

def intParse (source : Text) : Except Fault Int := (Numeral.parse source).elim (.error .formatException) .ok

def toInt : Option Text → Except Fault (Option Int)
  | none => .ok none
  | some value => some <$> intParse value

def color : Option Text → Except Fault (Option Color)
  | none => .ok none
  | some value =>
    tryCatch (do
      let number ← intParse (text "0xFF" ++ value)
      return some (.ofInt number)) fun _ => return none

def isHex (unit : UInt16) : Bool := (Numeral.digit 16 unit).isSome

def IsRgb (value : Text) : Prop := value.length = 6 ∧ ∀ unit ∈ value, isHex unit = true

def Opaque (value : Text) (c : Color) : Prop :=
  c.alpha = 0xff ∧ ∃ r r' g g' b b', value.mapM (Numeral.digit 16) = some [r, r', g, g', b, b'] ∧
    c.red = 16 * r + r' ∧ c.green = 16 * g + g' ∧ c.blue = 16 * b + b'

def Exact (value : Text) : Prop :=
  ∃ result, color (some value) = .ok result ∧ (result.isSome = true ↔ IsRgb value) ∧ ∀ c ∈ result, Opaque value c

def Loose (value : Text) : Prop :=
  ∃ digits blanks, value = digits ++ blanks ∧ digits.length ≤ 14 ∧ (∀ unit ∈ digits, isHex unit = true) ∧
    ∀ unit ∈ blanks, Numeral.isWhitespace unit = true

theorem channel_eq {mask : BitVec 32} {shift : Nat} (aligned : mask.toNat >>> shift = 2 ^ 8 - 1) (c : Color) :
    c.channel mask shift = c.value.toNat / 2 ^ shift % 2 ^ 8 := by
  rw [Color.channel, BitVec.toNat_ushiftRight, BitVec.toNat_and, Nat.shiftRight_and_distrib, aligned, Nat.and_comm,
    Nat.and_two_pow_sub_one_eq_mod, Nat.shiftRight_eq_div_pow]

theorem color_eq (value : Text) :
    color (some value) = .ok ((Numeral.parse (text "0xFF" ++ value)).map Color.ofInt) := by
  rw [color, intParse]
  cases Numeral.parse (text "0xFF" ++ value) <;> rfl

theorem magnitude_opaque (digits : Text) :
    Numeral.magnitude 16 (0x46 :: 0x46 :: digits) =
      (digits.mapM (Numeral.digit 16)).map fun ds => 255 * 16 ^ ds.length + Nat.ofDigits 16 ds.reverse := by
  have letter : Numeral.digit 16 0x46 = some 15 := by decide
  rw [Numeral.magnitude, if_neg (by simp), List.mapM_cons, List.mapM_cons, letter]
  cases digits.mapM (Numeral.digit 16) with
  | none => rfl
  | some ds =>
    have lead : Nat.ofDigits 16 [15, 15] = 255 := by decide
    simp [Nat.ofDigits_append, lead]
    ring

/-- The two digits before the text leave room for 14. -/
theorem opaque_fits {ds : List Nat} (bounds : ∀ d ∈ ds, d < 16) :
    255 * 16 ^ ds.length + Nat.ofDigits 16 ds.reverse < 2 ^ 64 ↔ ds.length ≤ 14 := by
  have below : Nat.ofDigits 16 ds.reverse < 16 ^ ds.length := by
    rw [← List.length_reverse]
    exact Nat.ofDigits_lt_base_pow_length (by decide) fun d member => bounds d (List.mem_reverse.mp member)
  constructor
  · intro fits
    by_contra long
    have large : 16 ^ 15 ≤ 16 ^ ds.length := Nat.pow_le_pow_right (by decide) (by omega)
    omega
  · intro short
    have small : 16 ^ ds.length ≤ 16 ^ 14 := Nat.pow_le_pow_right (by decide) short
    omega

theorem color_digits (value : Text) :
    color (some value) = .ok (((value.rdropWhile Numeral.isWhitespace).mapM (Numeral.digit 16)).bind fun ds =>
      if ds.length ≤ 14 then
        some (.ofInt (Int.bmod (255 * 16 ^ ds.length + Nat.ofDigits 16 ds.reverse : Nat) (2 ^ 64)))
      else none) := by
  have start : text "0xFF" ++ value = 0x30 :: 0x78 :: 0x46 :: 0x46 :: value := by
    rw [show text "0xFF" = [0x30, 0x78, 0x46, 0x46] by decide +kernel]
    rfl
  have letter : Numeral.isWhitespace 0x46 = false := by decide
  rw [color_eq, start, Numeral.parse_hexadecimal, Numeral.rdropWhile_cons letter, Numeral.rdropWhile_cons letter,
    Numeral.hexadecimal, magnitude_opaque]
  cases read : (value.rdropWhile Numeral.isWhitespace).mapM (Numeral.digit 16) with
  | none => rfl
  | some ds =>
    have fits := opaque_fits (Numeral.digits_spec read).2
    simp only [Option.map_some, Option.bind_eq_bind, Option.bind_some, Bool.false_eq_true, if_false, fits]
    split <;> rfl

theorem color_accepts (value : Text) :
    ∃ result, color (some value) = .ok result ∧ (result.isSome = true ↔ Loose value) := by
  refine ⟨_, color_digits value, ?_⟩
  constructor
  · intro accepted
    cases read : (value.rdropWhile Numeral.isWhitespace).mapM (Numeral.digit 16) with
    | none => simp [read] at accepted
    | some ds =>
      have hex := Numeral.digits_isSome.mp (by rw [read]; rfl)
      have short : ds.length ≤ 14 := by
        by_contra long
        simp [read, long] at accepted
      rw [(Numeral.digits_spec read).1] at short
      refine ⟨_, _, List.rdropWhile_append_rtakeWhile.symm, short, hex, ?_⟩
      exact fun unit member => List.mem_rtakeWhile_imp member
  · rintro ⟨digits, blanks, rfl, short, hex, blank⟩
    obtain ⟨ds, read⟩ := Option.isSome_iff_exists.mp (Numeral.digits_isSome.mpr hex)
    rw [← (Numeral.digits_spec read).1] at short
    rw [Numeral.rdropWhile_digits hex blank, read, Option.bind_some, if_pos short]
    rfl

theorem ofInt_small {n : Nat} (small : n < 2 ^ 32) : (Color.ofInt (Int.bmod n (2 ^ 64))).value.toNat = n := by
  have same : Int.bmod n (2 ^ 64) = n := Int.bmod_eq_of_le (by omega) (by omega)
  rw [Color.ofInt, same, BitVec.ofInt_natCast, BitVec.toNat_ofNat, Nat.mod_eq_of_lt small]

theorem rgb_opaque {value : Text} (rgb : IsRgb value) : ∃ c, color (some value) = .ok (some c) ∧ Opaque value c := by
  obtain ⟨six, hex⟩ := rgb
  obtain ⟨ds, read⟩ := Option.isSome_iff_exists.mp (Numeral.digits_isSome.mpr hex)
  obtain ⟨length, bounds⟩ := Numeral.digits_spec read
  have whole : value.rdropWhile Numeral.isWhitespace = value := by
    have none : ∀ unit ∈ ([] : Text), Numeral.isWhitespace unit = true := by simp
    simpa using Numeral.rdropWhile_digits hex none
  rw [six] at length
  obtain ⟨r, r', g, g', b, b', rfl⟩ : ∃ r r' g g' b b', ds = [r, r', g, g', b, b'] := by
    match ds, length with
    | [r, r', g, g', b, b'], _ => exact ⟨r, r', g, g', b, b', rfl⟩
  simp only [List.forall_mem_cons, List.not_mem_nil, false_imp_iff, implies_true, and_true] at bounds
  have number : 255 * 16 ^ [r, r', g, g', b, b'].length + Nat.ofDigits 16 [r, r', g, g', b, b'].reverse =
      0xff000000 + 0x100000 * r + 0x10000 * r' + 0x1000 * g + 0x100 * g' + 0x10 * b + b' := by
    simp [Nat.ofDigits_cons]
    omega
  have given := color_digits value
  rw [whole, read, Option.bind_some, if_pos (by simp), number] at given
  refine ⟨_, given, ?_, r, r', g, g', b, b', read, ?_, ?_, ?_⟩
  · rw [Color.alpha, channel_eq (by decide), ofInt_small (by omega)]
    omega
  · rw [Color.red, channel_eq (by decide), ofInt_small (by omega)]
    omega
  · rw [Color.green, channel_eq (by decide), ofInt_small (by omega)]
    omega
  · rw [Color.blue, channel_eq (by decide), ofInt_small (by omega)]
    omega

/-- A text is treated as it should be unless it is one that `int.parse` can read and has
    another number of digits than six or white space at its end. -/
theorem color_exact_iff (value : Text) : Exact value ↔ (Loose value → IsRgb value) := by
  obtain ⟨result, given, accepted⟩ := color_accepts value
  constructor
  · rintro ⟨other, same, exact, _⟩ loose
    rw [given] at same
    cases same
    exact exact.mp (accepted.mpr loose)
  · intro strict
    refine ⟨result, given, ⟨fun some => strict (accepted.mp some), fun rgb => ?_⟩, fun c shown => ?_⟩
    · obtain ⟨c, same, _⟩ := rgb_opaque rgb
      rw [given] at same
      cases same
      rfl
    · obtain ⟨c', same, shows⟩ := rgb_opaque (strict (accepted.mp (by rw [Option.mem_def.mp shown]; rfl)))
      rw [given] at same
      cases same
      cases shown
      exact shows

/-- Three digits give a colour that cannot be seen, and eight give one with another alpha. -/
theorem short_color_transparent : ¬ Exact (text "fff") ∧
    color (some (text "fff")) = .ok (some ⟨0x000fffff⟩) ∧ Color.alpha ⟨0x000fffff⟩ = 0 ∧
    color (some (text "80ff0000")) = .ok (some ⟨0x80ff0000⟩) := by
  have shown : color (some (text "fff")) = .ok (some ⟨0x000fffff⟩) := by decide +kernel
  refine ⟨?_, shown, by decide, by decide +kernel⟩
  rintro ⟨result, same, exact, _⟩
  rw [shown] at same
  cases same
  have six := (exact.mp rfl).1
  revert six
  decide +kernel

end Colors

section Images

inductive ImageProvider where
  | cachedNetworkImageProvider (url : Text)
  | networkImage (url : Text)
  | assetImage (assetName : Text)
  | fileImage (path : Text)
deriving DecidableEq

def item (list : List Text) (i : Nat) : Except Fault Text := list[i]?.elim (throw .rangeError) pure

def imageProvider (image : Text) (cache : Option Bool) : Except Fault ImageProvider := do
  let list := Split.split (text "://") image
  let protocol ← item list 0
  let url ← item list 1
  if protocol = text "http" ∨ protocol = text "https" then
    if cache = some true then return .cachedNetworkImageProvider image
    return .networkImage image
  else if protocol = text "assets" then return .assetImage url
  else return .fileImage url

def complete (protocol url : Text) (cache : Option Bool) : ImageProvider :=
  if protocol = text "http" ∨ protocol = text "https" then
    if cache = some true then .cachedNetworkImageProvider (protocol ++ text "://" ++ url)
    else .networkImage (protocol ++ text "://" ++ url)
  else if protocol = text "assets" then .assetImage url
  else .fileImage url

theorem separator_unbordered : Split.Unbordered (text "://") := by decide +kernel

theorem separator_ne_nil : text "://" ≠ [] := by decide +kernel

/-- What is behind a second separator does not reach the provider. -/
theorem imageProvider_eq {protocol : Text} (single : ¬ text "://" <:+: protocol) (url : Text) (cache : Option Bool) :
    ∃ first, (first = url ↔ ¬ text "://" <:+: url) ∧
      imageProvider (protocol ++ text "://" ++ url) cache =
        .ok (if protocol = text "http" ∨ protocol = text "https" then complete protocol url cache
          else complete protocol first cache) := by
  obtain ⟨first, rest, pieces, whole⟩ := Split.split_first separator_ne_nil url
  refine ⟨first, whole, ?_⟩
  have list := Split.split_join separator_unbordered separator_ne_nil single url
  rw [pieces] at list
  have begins : item (protocol :: first :: rest) 0 = pure protocol := rfl
  have follows : item (protocol :: first :: rest) 1 = pure first := rfl
  unfold imageProvider complete
  simp only [list, begins, follows, pure_bind]
  by_cases network : protocol = text "http" ∨ protocol = text "https"
  · simp only [network, if_true]
    split <;> rfl
  · simp only [network, if_false]
    split <;> rfl

/-- The address is complete exactly when the protocol is one of the web or the separator
    does not come again. -/
theorem address_complete_iff (protocol url : Text) (cache : Option Bool) (single : ¬ text "://" <:+: protocol) :
    imageProvider (protocol ++ text "://" ++ url) cache = .ok (complete protocol url cache) ↔
      protocol = text "http" ∨ protocol = text "https" ∨ ¬ text "://" <:+: url := by
  obtain ⟨first, whole, given⟩ := imageProvider_eq single url cache
  rw [given, Except.ok.injEq, ← or_assoc]
  by_cases network : protocol = text "http" ∨ protocol = text "https"
  · simp [network]
  · rw [if_neg network, or_iff_right network, ← whole]
    constructor
    · intro same
      unfold complete at same
      rw [if_neg network, if_neg network] at same
      split at same
      · exact ImageProvider.assetImage.inj same
      · exact ImageProvider.fileImage.inj same
    · intro same
      rw [same]

theorem address_complete_iff_asset :
    ¬ text "://" <:+: text "assets" ∧
      imageProvider (text "assets" ++ text "://" ++ text "a.png") (some false) = .ok (.assetImage (text "a.png")) := by
  have single : ¬ text "://" <:+: text "assets" := by decide +kernel
  have given := (address_complete_iff (text "assets") (text "a.png") (some false) single).mpr (by decide +kernel)
  exact ⟨single, given⟩

/-- An asset in a directory with the separator in its name. -/
theorem second_separator_cuts :
    ¬ text "://" <:+: text "assets" ∧
      imageProvider (text "assets://a://b.png") (some false) = .ok (.assetImage (text "a")) ∧
      ¬ imageProvider (text "assets" ++ text "://" ++ text "a://b.png") (some false) =
        .ok (complete (text "assets") (text "a://b.png") (some false)) := by
  decide +kernel

end Images

end Sano.Render.Parse
