import Mathlib.Data.List.TakeWhile
import Sano.Base.Numeral

namespace JsonText

section Reading

inductive Value (ν : Type) where
  | null
  | bool (value : Bool)
  | number (value : ν)
  | string (units : List UInt16)
  | list (items : List (Value ν))
  | map (members : List (List UInt16 × Value ν))

section Mapping

variable {ν μ : Type} (read : ν → μ)

mutual

def Value.mapNumbers : Value ν → Value μ
  | .null => .null
  | .bool value => .bool value
  | .number value => .number (read value)
  | .string units => .string units
  | .list items => .list (mapItems items)
  | .map members => .map (mapMembers members)

def mapItems : List (Value ν) → List (Value μ)
  | [] => []
  | item :: rest => item.mapNumbers :: mapItems rest

def mapMembers : List (List UInt16 × Value ν) → List (List UInt16 × Value μ)
  | [] => []
  | (key, value) :: rest => (key, value.mapNumbers) :: mapMembers rest

end

end Mapping

abbrev Written := Value (List UInt16)

def isBlank (unit : UInt16) : Bool := unit = 0x20 || unit = 0x09 || unit = 0x0a || unit = 0x0d

def isDigit (unit : UInt16) : Bool := 0x30 ≤ unit && unit ≤ 0x39

def isNumberUnit (unit : UInt16) : Bool :=
  isDigit unit || unit = 0x2d || unit = 0x2b || unit = 0x2e || unit = 0x65 || unit = 0x45

def skip (text : List UInt16) : List UInt16 := text.dropWhile isBlank

def isDigits (token : List UInt16) : Bool := token ≠ [] && token.all isDigit

def isExponent : List UInt16 → Bool
  | [] => true
  | mark :: power =>
    (mark = 0x65 || mark = 0x45) && isDigits (if power.head? = some 0x2b ∨ power.head? = some 0x2d then power.tail else power)

def isFraction : List UInt16 → Bool
  | [] => true
  | mark :: rest =>
    if mark = 0x2e then rest.takeWhile isDigit ≠ [] && isExponent (rest.dropWhile isDigit) else isExponent (mark :: rest)

def isWhole (digits : List UInt16) : Bool := digits ≠ [] && (digits.head? ≠ some 0x30 || digits.length = 1)

def isMagnitude (token : List UInt16) : Bool := isWhole (token.takeWhile isDigit) && isFraction (token.dropWhile isDigit)

def isNumber (token : List UInt16) : Bool := isMagnitude (if token.head? = some 0x2d then token.tail else token)

def unescape (kind : UInt16) : Option UInt16 :=
  if kind = 0x22 then some 0x22
  else if kind = 0x5c then some 0x5c
  else if kind = 0x2f then some 0x2f
  else if kind = 0x62 then some 0x08
  else if kind = 0x66 then some 0x0c
  else if kind = 0x6e then some 0x0a
  else if kind = 0x72 then some 0x0d
  else if kind = 0x74 then some 0x09
  else none

def stringBody : List UInt16 → Option (List UInt16 × List UInt16)
  | [] => none
  | unit :: rest =>
    if unit = 0x22 then some ([], rest)
    else if unit = 0x5c then
      match rest with
      | [] => none
      | kind :: rest =>
        if kind = 0x75 then
          match rest with
          | a :: b :: c :: d :: rest =>
            (Numeral.magnitude 16 [a, b, c, d]).bind fun code =>
              (stringBody rest).map fun (units, rest) => (.ofNat code :: units, rest)
          | _ => none
        else (unescape kind).bind fun unit => (stringBody rest).map fun (units, rest) => (unit :: units, rest)
    else if unit < 0x20 then none
    else (stringBody rest).map fun (units, rest) => (unit :: units, rest)

def scalar (text : List UInt16) : Option (Written × List UInt16) :=
  if text.take 4 = [0x6e, 0x75, 0x6c, 0x6c] then some (.null, text.drop 4)
  else if text.take 4 = [0x74, 0x72, 0x75, 0x65] then some (.bool true, text.drop 4)
  else if text.take 5 = [0x66, 0x61, 0x6c, 0x73, 0x65] then some (.bool false, text.drop 5)
  else if isNumber (text.takeWhile isNumberUnit) then
    some (.number (text.takeWhile isNumberUnit), text.dropWhile isNumberUnit)
  else none

mutual

/-- The first value of a text and what stands after it; `fuel` bounds the nesting and the
    lengths of lists and maps. -/
def value : Nat → List UInt16 → Option (Written × List UInt16)
  | 0, _ => none
  | fuel + 1, text =>
    match skip text with
    | [] => none
    | first :: rest =>
      if first = 0x22 then (stringBody rest).map fun (units, rest) => (.string units, rest)
      else if first = 0x5b then
        if (skip rest).head? = some 0x5d then some (.list [], (skip rest).tail)
        else (items fuel rest).map fun (items, rest) => (.list items, rest)
      else if first = 0x7b then
        if (skip rest).head? = some 0x7d then some (.map [], (skip rest).tail)
        else (members fuel rest).map fun (members, rest) => (.map members, rest)
      else scalar (first :: rest)

def items : Nat → List UInt16 → Option (List Written × List UInt16)
  | 0, _ => none
  | fuel + 1, text =>
    (value fuel text).bind fun (item, rest) =>
      match skip rest with
      | [] => none
      | mark :: rest =>
        if mark = 0x2c then (items fuel rest).map fun (items, rest) => (item :: items, rest)
        else if mark = 0x5d then some ([item], rest)
        else none

def members : Nat → List UInt16 → Option (List (List UInt16 × Written) × List UInt16)
  | 0, _ => none
  | fuel + 1, text =>
    if (skip text).head? = some 0x22 then
      (stringBody (skip text).tail).bind fun (key, rest) =>
        if (skip rest).head? = some 0x3a then
          (value fuel (skip rest).tail).bind fun (held, rest) =>
            match skip rest with
            | [] => none
            | mark :: rest =>
              if mark = 0x2c then (members fuel rest).map fun (members, rest) => ((key, held) :: members, rest)
              else if mark = 0x7d then some ([(key, held)], rest)
              else none
        else none
    else none

end

def decode (text : List UInt16) : Option Written :=
  (value text.length text).bind fun (decoded, rest) => if skip rest = [] then some decoded else none

end Reading

section Numbers

variable {token : List UInt16}

theorem isNumberUnit_of_isDigit {unit : UInt16} (digit : isDigit unit = true) : isNumberUnit unit = true := by
  simp [isNumberUnit, digit]

theorem isDigits_units (digits : isDigits token = true) : ∀ unit ∈ token, isNumberUnit unit = true := by
  simp only [isDigits, Bool.and_eq_true] at digits
  exact fun unit member => isNumberUnit_of_isDigit (List.all_eq_true.mp digits.2 unit member)

theorem isExponent_units (exponent : isExponent token = true) : ∀ unit ∈ token, isNumberUnit unit = true := by
  cases token with
  | nil => simp
  | cons mark power =>
    simp only [isExponent, Bool.and_eq_true, Bool.or_eq_true, decide_eq_true_eq] at exponent
    obtain ⟨marked, digits⟩ := exponent
    have first : isNumberUnit mark = true := by rcases marked with rfl | rfl <;> rfl
    refine List.forall_mem_cons.mpr ⟨first, ?_⟩
    split at digits
    case isTrue signed =>
      cases power with
      | nil => simp
      | cons sign digit =>
        simp only [List.head?_cons, Option.some.injEq] at signed
        refine List.forall_mem_cons.mpr ⟨?_, isDigits_units digits⟩
        rcases signed with rfl | rfl <;> rfl
    case isFalse => exact isDigits_units digits

theorem takeWhile_units (token : List UInt16) : ∀ unit ∈ token.takeWhile isDigit, isNumberUnit unit = true :=
  fun _ member => isNumberUnit_of_isDigit (List.mem_takeWhile_imp member)

theorem units_of_parts (rest : ∀ unit ∈ token.dropWhile isDigit, isNumberUnit unit = true) :
    ∀ unit ∈ token, isNumberUnit unit = true := by
  intro unit member
  rw [← List.takeWhile_append_dropWhile (p := isDigit) (l := token)] at member
  rcases List.mem_append.mp member with digit | later
  · exact takeWhile_units token unit digit
  · exact rest unit later

theorem isFraction_units (fraction : isFraction token = true) : ∀ unit ∈ token, isNumberUnit unit = true := by
  cases token with
  | nil => simp
  | cons mark rest =>
    rw [isFraction] at fraction
    split at fraction
    case isTrue point =>
      rw [Bool.and_eq_true] at fraction
      exact List.forall_mem_cons.mpr ⟨by rw [point]; rfl, units_of_parts (isExponent_units fraction.2)⟩
    case isFalse => exact isExponent_units fraction

theorem isNumber_units (number : isNumber token = true) : ∀ unit ∈ token, isNumberUnit unit = true := by
  rw [isNumber, isMagnitude, Bool.and_eq_true] at number
  have parts := units_of_parts (isFraction_units number.2)
  split at parts
  case isTrue signed =>
    obtain ⟨rest, rfl⟩ := List.head?_eq_some_iff.mp signed
    exact List.forall_mem_cons.mpr ⟨rfl, parts⟩
  case isFalse => exact parts

theorem isNumber_head (number : isNumber token = true) :
    ∃ first rest, token = first :: rest ∧ (first = 0x2d ∨ isDigit first = true) := by
  cases token with
  | nil => simp [isNumber, isMagnitude, isWhole] at number
  | cons first rest =>
    refine ⟨first, rest, rfl, ?_⟩
    by_cases negative : first = 0x2d
    · exact .inl negative
    · right
      by_contra other
      simp [isNumber, isMagnitude, isWhole, negative, other] at number

/-- A token ends before the first unit of another kind. -/
theorem span_append {kind : UInt16 → Bool} {token rest : List UInt16} (all : ∀ unit ∈ token, kind unit = true)
    (ends : ∀ unit, rest.head? = some unit → kind unit = false) :
    (token ++ rest).takeWhile kind = token ∧ (token ++ rest).dropWhile kind = rest := by
  rw [List.takeWhile_append_of_pos all, List.dropWhile_append_of_pos all]
  cases rest with
  | nil => simp
  | cons unit after => simp [ends unit rfl]

end Numbers

section Strings

def Spells (text units : List UInt16) : Prop :=
  ∀ rest, stringBody (text ++ rest) = (stringBody rest).map fun (more, after) => (units ++ more, after)

theorem Spells.plain {unit : UInt16} (shown : ¬ unit < 0x20) (other : unit ≠ 0x22 ∧ unit ≠ 0x5c) : Spells [unit] [unit] := by
  intro rest
  rw [stringBody.eq_def]
  simp [shown, other]

theorem Spells.escape {kind unit : UInt16} (named : unescape kind = some unit) : Spells [0x5c, kind] [unit] := by
  intro rest
  have other : kind ≠ 0x75 := by
    rintro rfl
    simp [unescape] at named
  rw [stringBody.eq_def]
  simp [other, named]

theorem Spells.hexadecimal {a b c d : UInt16} {code : Nat} (digits : Numeral.magnitude 16 [a, b, c, d] = some code) :
    Spells [0x5c, 0x75, a, b, c, d] [.ofNat code] := by
  intro rest
  rw [stringBody.eq_def]
  simp [digits]

theorem Spells.nil : Spells [] [] := by
  intro rest
  simp

theorem Spells.append {first second one two : List UInt16} (here : Spells first one) (there : Spells second two) :
    Spells (first ++ second) (one ++ two) := by
  intro rest
  rw [List.append_assoc, here, there, Option.map_map]
  congr 1
  funext ⟨more, after⟩
  simp

theorem Spells.flatMap {α : Type} {written meant : α → List UInt16} {parts : List α}
    (each : ∀ part ∈ parts, Spells (written part) (meant part)) : Spells (parts.flatMap written) (parts.flatMap meant) := by
  induction parts with
  | nil => exact Spells.nil
  | cons part parts ih =>
    rw [List.flatMap_cons, List.flatMap_cons]
    exact (each part List.mem_cons_self).append (ih fun other member => each other (List.mem_cons_of_mem _ member))

theorem Spells.close {text units : List UInt16} (spells : Spells text units) (rest : List UInt16) :
    stringBody (text ++ 0x22 :: rest) = some (units, rest) := by
  rw [spells, stringBody.eq_def]
  simp

end Strings

section Rules

variable {fuel : Nat} {text rest : List UInt16}

def Delimited (rest : List UInt16) : Prop := ∀ unit, rest.head? = some unit → isNumberUnit unit = false

theorem skip_blanks {blanks : List UInt16} (blank : ∀ unit ∈ blanks, isBlank unit = true) (text : List UInt16) :
    skip (blanks ++ text) = skip text :=
  List.dropWhile_append_of_pos blank

theorem skip_cons (unit : UInt16) (mark : isBlank unit = false) (rest : List UInt16) : skip (unit :: rest) = unit :: rest :=
  List.dropWhile_cons_of_neg (by simp [mark])

theorem value_skip (same : skip text = skip rest) : value fuel text = value fuel rest := by
  cases fuel with
  | zero => rw [value, value]
  | succ fuel => rw [value, value, same]

theorem value_string {body units : List UInt16} (read : stringBody body = some (units, rest)) :
    value (fuel + 1) (0x22 :: body) = some (.string units, rest) := by
  simp [value, skip_cons 0x22 rfl, read]

theorem value_scalar {first : UInt16} {found : Written} (read : scalar (first :: text) = some (found, rest))
    (mark : isBlank first = false) (plain : first ≠ 0x22 ∧ first ≠ 0x5b ∧ first ≠ 0x7b) :
    value (fuel + 1) (first :: text) = some (found, rest) := by
  simp [value, skip_cons first mark, plain, read]

theorem value_null (rest : List UInt16) : value (fuel + 1) (0x6e :: 0x75 :: 0x6c :: 0x6c :: rest) = some (.null, rest) :=
  value_scalar (by simp [scalar]) rfl (by decide)

theorem value_true (rest : List UInt16) : value (fuel + 1) (0x74 :: 0x72 :: 0x75 :: 0x65 :: rest) = some (.bool true, rest) :=
  value_scalar (by simp [scalar]) rfl (by decide)

theorem value_false (rest : List UInt16) :
    value (fuel + 1) (0x66 :: 0x61 :: 0x6c :: 0x73 :: 0x65 :: rest) = some (.bool false, rest) :=
  value_scalar (by simp [scalar]) rfl (by decide)

theorem value_number {token : List UInt16} (number : isNumber token = true) (ends : Delimited rest) :
    value (fuel + 1) (token ++ rest) = some (.number token, rest) := by
  obtain ⟨whole, after⟩ := span_append (isNumber_units number) ends
  obtain ⟨first, tail, rfl, start⟩ := isNumber_head number
  have range : first = 0x2d ∨ (0x30 ≤ first.toNat ∧ first.toNat ≤ 0x39) := by
    rcases start with rfl | digit
    · exact .inl rfl
    · simp only [isDigit, Bool.and_eq_true, decide_eq_true_eq, UInt16.le_iff_toNat_le] at digit
      exact .inr digit
  have other (unit : UInt16) (apart : unit ≠ 0x2d ∧ ¬ (0x30 ≤ unit.toNat ∧ unit.toNat ≤ 0x39)) : first ≠ unit := by
    rintro rfl
    exact range.elim apart.1 apart.2
  have mark : isBlank first = false := by
    simp [isBlank, other 0x20 (by decide), other 0x09 (by decide), other 0x0a (by decide), other 0x0d (by decide)]
  refine value_scalar ?_ mark ⟨other 0x22 (by decide), other 0x5b (by decide), other 0x7b (by decide)⟩
  rw [List.cons_append] at whole after
  simp [scalar, whole, after, number, other 0x6e (by decide), other 0x74 (by decide), other 0x66 (by decide)]

theorem value_list_nil {inside : List UInt16} (close : skip inside = 0x5d :: rest) :
    value (fuel + 1) (0x5b :: inside) = some (.list [], rest) := by
  simp [value, skip_cons 0x5b rfl, close]

theorem value_map_nil {inside : List UInt16} (close : skip inside = 0x7d :: rest) :
    value (fuel + 1) (0x7b :: inside) = some (.map [], rest) := by
  simp [value, skip_cons 0x7b rfl, close]

theorem value_list {inside : List UInt16} (filled : (skip inside).head? ≠ some 0x5d) :
    value (fuel + 1) (0x5b :: inside) = (items fuel inside).map fun (found, rest) => (.list found, rest) := by
  simp [value, skip_cons 0x5b rfl, filled]

theorem value_map {inside : List UInt16} (filled : (skip inside).head? ≠ some 0x7d) :
    value (fuel + 1) (0x7b :: inside) = (members fuel inside).map fun (found, rest) => (.map found, rest) := by
  simp [value, skip_cons 0x7b rfl, filled]

theorem items_none (failed : value fuel text = none) : items (fuel + 1) text = none := by
  simp [items, failed]

theorem items_last {item : Written} {after : List UInt16} (read : value fuel text = some (item, after))
    (close : skip after = 0x5d :: rest) : items (fuel + 1) text = some ([item], rest) := by
  simp [items, read, close]

theorem items_more {item : Written} {after more : List UInt16} (read : value fuel text = some (item, after))
    (comma : skip after = 0x2c :: more) :
    items (fuel + 1) text = (items fuel more).map fun (found, rest) => (item :: found, rest) := by
  simp [items, read, comma]

section Member

variable {key colon inside : List UInt16} {held : Written} {after : List UInt16}

theorem members_none (quote : skip text = 0x22 :: colon) (name : stringBody colon = some (key, 0x3a :: inside))
    (failed : value fuel inside = none) : members (fuel + 1) text = none := by
  simp [members, quote, name, skip_cons 0x3a rfl, failed]

theorem members_last (quote : skip text = 0x22 :: colon) (name : stringBody colon = some (key, 0x3a :: inside))
    (read : value fuel inside = some (held, after)) (close : skip after = 0x7d :: rest) :
    members (fuel + 1) text = some ([(key, held)], rest) := by
  simp [members, quote, name, skip_cons 0x3a rfl, read, close]

theorem members_more {more : List UInt16} (quote : skip text = 0x22 :: colon)
    (name : stringBody colon = some (key, 0x3a :: inside)) (read : value fuel inside = some (held, after))
    (comma : skip after = 0x2c :: more) :
    members (fuel + 1) text = (members fuel more).map fun (found, rest) => ((key, held) :: found, rest) := by
  simp [members, quote, name, skip_cons 0x3a rfl, read, comma]

end Member

theorem decode_of_value {found : Option Written}
    (read : value text.length text = found.map fun decoded => (decoded, [])) : decode text = found := by
  rw [decode, read]
  cases found <;> rfl

end Rules

end JsonText
