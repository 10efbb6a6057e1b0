import Sano.Runtime.Digits
import Sano.Runtime.Message

namespace Sano.Runtime.Message

open JsonText

section Model

end Model

section Clean

def Clean (text : List UInt16) : Prop :=
  ∃ points : List Nat, (∀ point ∈ points, Utf16.Scalar point ∧ point ≠ 0) ∧ text = Utf16.encode points

theorem Clean.append {first second : List UInt16} (one : Clean first) (two : Clean second) : Clean (first ++ second) := by
  obtain ⟨points, each, rfl⟩ := one
  obtain ⟨others, every, rfl⟩ := two
  refine ⟨points ++ others, ?_, by simp [Utf16.encode]⟩
  exact fun point member => (List.mem_append.mp member).elim (each point) (every point)

def isPlain (unit : UInt16) : Bool := unit.toNat < 0xd800 && unit.toNat ≠ 0

theorem Clean.units {text : List UInt16} (plain : text.all isPlain = true) : Clean text := by
  refine ⟨text.map UInt16.toNat, ?_, ?_⟩
  · intro point member
    obtain ⟨unit, here, rfl⟩ := List.mem_map.mp member
    have kind := List.all_eq_true.mp plain unit here
    simp only [isPlain, Bool.and_eq_true, decide_eq_true_eq] at kind
    refine ⟨⟨by omega, ?_⟩, kind.2⟩
    rw [Bool.eq_false_iff]
    intro surrogate
    have := (Utf16.isSurrogate_iff _).mp surrogate
    omega
  · clear plain
    induction text with
    | nil => rfl
    | cons unit rest ih =>
      rw [List.map_cons, Utf16.encode_cons, Utf16.encodePoint_unit, ← ih]
      rfl

theorem Clean.crosses {text : List UInt16} (clean : Clean text) (starts : Starts text) : Crosses text := by
  obtain ⟨points, each, rfl⟩ := clean
  have scalar : ∀ point ∈ points, Utf16.Scalar point := fun point member => (each point member).1
  have same := Utf16.points_encode scalar
  refine ⟨?_, ?_, ?_⟩
  · rw [← Utf16.zero_mem_points, same]
    exact fun zero => (each 0 zero).2 rfl
  · rw [Utf16.isWellFormed_iff, same]
    exact scalar
  · obtain ⟨first, rest, text, _, _, unmarked⟩ := starts
    rw [text]
    simpa using unmarked

theorem Clean.nil : Clean [] := ⟨[], by simp, rfl⟩

theorem Clean.cons {unit : UInt16} {text : List UInt16} (plain : isPlain unit = true) (rest : Clean text) :
    Clean (unit :: text) :=
  (Clean.units (by simpa using plain) : Clean [unit]).append rest

theorem Clean.flatMap {α : Type} {write : α → List UInt16} {parts : List α} (each : ∀ part ∈ parts, Clean (write part)) :
    Clean (parts.flatMap write) := by
  induction parts with
  | nil => exact Clean.nil
  | cons part rest ih =>
    rw [List.flatMap_cons]
    exact (each part List.mem_cons_self).append (ih fun other member => each other (List.mem_cons_of_mem _ member))

theorem blank_clean {text : List UInt16} (blank : ∀ unit ∈ text, isBlank unit = true) : Clean text := by
  refine Clean.units (List.all_eq_true.mpr fun unit member => ?_)
  have kind := blank unit member
  simp only [isBlank, Bool.or_eq_true, decide_eq_true_eq] at kind
  rcases kind with ((rfl | rfl) | rfl) | rfl <;> decide

theorem isNumber_clean {token : List UInt16} (number : isNumber token = true) : Clean token := by
  refine Clean.units (List.all_eq_true.mpr fun unit member => ?_)
  have kind := isNumber_units number unit member
  simp only [isNumberUnit, isDigit, Bool.or_eq_true, Bool.and_eq_true, decide_eq_true_eq, UInt16.le_iff_toNat_le] at kind
  rcases kind with ((((digit | rfl) | rfl) | rfl) | rfl) | rfl
  · have low : 48 ≤ unit.toNat := digit.1
    have high : unit.toNat ≤ 57 := digit.2
    simp only [isPlain, Bool.and_eq_true, decide_eq_true_eq]
    omega
  all_goals decide

theorem number_clean (ecvt : Float64 → Decimal) (number : Number) : Clean (number.text ecvt) := by
  by_cases finite : number.isFinite = true
  · exact isNumber_clean (number.text_isNumber ecvt finite)
  · rcases special_text ecvt (by simpa using finite) with text | text | text <;> rw [text] <;>
      exact Clean.units (by decide)

theorem hexDigit_plain (n : Nat) : isPlain (hexDigit (n % 16)) = true := by
  have all : ∀ n : Fin 16, isPlain (hexDigit n) = true := by decide
  exact all ⟨n % 16, Nat.mod_lt n (by decide)⟩

theorem hexEscape_clean (c : Nat) : Clean (hexEscape c) := by
  unfold hexEscape
  refine .cons (by decide) (.cons (by decide) (.cons ?_ (.cons ?_ (.cons ?_ (.cons ?_ .nil))))) <;> exact hexDigit_plain _

/-- A surrogate that is no half of a pair is escaped. -/
theorem quotePoint_clean {c : Nat} (bounded : c < 0x110000) : Clean (quotePoint c) := by
  unfold quotePoint
  split_ifs with tab carriage newline backspace feed quote escaped
  · exact Clean.units (by decide)
  · exact Clean.units (by decide)
  · exact Clean.units (by decide)
  · exact Clean.units (by decide)
  · exact Clean.units (by decide)
  · rcases quote with rfl | rfl <;> exact Clean.units (by decide)
  · exact hexEscape_clean c
  · refine ⟨[c], ?_, by simp [Utf16.encode]⟩
    intro point member
    rw [List.mem_singleton.mp member]
    exact ⟨⟨bounded, by simpa using fun surrogate => escaped (.inr surrogate)⟩, by omega⟩

theorem toQuotedString_clean (units : List UInt16) : Clean (toQuotedString units) := by
  have body : Clean ((Utf16.points units).flatMap quotePoint) :=
    Clean.flatMap fun c member => quotePoint_clean (Utf16.points_lt member)
  exact .cons (by decide) (body.append (Clean.units (by decide)))

end Clean

section Texts

variable (ecvt : Float64 → Decimal) {gap : List UInt16}

mutual

theorem jsonToStr_clean (blank : ∀ unit ∈ gap, isBlank unit = true) (indent : List UInt16)
    (indented : ∀ unit ∈ indent, isBlank unit = true) (data : Data) : Clean (jsonToStr ecvt gap indent data) := by
  have null : Clean nullText := Clean.units (by decide)
  have bool (value : Bool) : Clean (boolText value) := by cases value <;> exact Clean.units (by decide)
  have broken := blank_clean (lineBreak_blank gap indented)
  match data with
  | .undefined => rw [jsonToStr]; exact Clean.nil
  | .function => rw [jsonToStr]; exact Clean.nil
  | .symbol => rw [jsonToStr]; exact Clean.nil
  | .null => rw [jsonToStr]; exact null
  | .bool value => rw [jsonToStr]; exact bool value
  | .number value =>
    rw [jsonToStr]
    split
    · exact number_clean ecvt value
    · exact null
  | .string units => rw [jsonToStr]; exact toQuotedString_clean units
  | .boolObject value => rw [jsonToStr]; exact bool value
  | .numberObject value => rw [jsonToStr]; exact number_clean ecvt value
  | .stringObject units => rw [jsonToStr]; exact toQuotedString_clean units
  | .array items =>
    rw [jsonToStr]
    have inside := itemsToStr_clean blank (indent ++ gap) (indented_gap blank indented) true items
    refine Clean.append (Clean.append (.cons (by decide) inside) ?_) (Clean.units (by decide))
    split
    · exact Clean.nil
    · exact broken
  | .object members =>
    rw [jsonToStr]
    have inside := membersToStr_clean blank (indent ++ gap) (indented_gap blank indented) true members
    refine Clean.append (Clean.append (.cons (by decide) inside) ?_) (Clean.units (by decide))
    split
    · exact Clean.nil
    · exact broken

theorem itemsToStr_clean (blank : ∀ unit ∈ gap, isBlank unit = true) (indent : List UInt16)
    (indented : ∀ unit ∈ indent, isBlank unit = true) (first : Bool) (items : List Data) :
    Clean (itemsToStr ecvt gap indent first items) := by
  match items with
  | [] => rw [itemsToStr]; exact Clean.nil
  | item :: rest =>
    rw [itemsToStr]
    have broken := blank_clean (lineBreak_blank gap indented)
    refine Clean.append (Clean.append (Clean.append ?_ broken) ?_) (itemsToStr_clean blank indent indented false rest)
    · split
      · exact Clean.nil
      · exact Clean.units (by decide)
    · split
      · exact Clean.units (by decide)
      · exact jsonToStr_clean blank indent indented item

theorem membersToStr_clean (blank : ∀ unit ∈ gap, isBlank unit = true) (indent : List UInt16)
    (indented : ∀ unit ∈ indent, isBlank unit = true) (first : Bool) (members : List (List UInt16 × Data)) :
    Clean (membersToStr ecvt gap indent first members) := by
  match members with
  | [] => rw [membersToStr]; exact Clean.nil
  | (key, value) :: rest =>
    rw [membersToStr]
    split
    · exact membersToStr_clean blank indent indented first rest
    · have broken := blank_clean (lineBreak_blank gap indented)
      refine Clean.append (Clean.append (Clean.append (Clean.append (Clean.append ?_ broken) (toQuotedString_clean key))
        (.cons (by decide) ?_)) (jsonToStr_clean blank indent indented value))
        (membersToStr_clean blank indent indented false rest)
      · split
        · exact Clean.nil
        · exact Clean.units (by decide)
      · split
        · exact Clean.nil
        · exact Clean.units (by decide)

end

end Texts

section Mapping

variable {ν μ : Type} (arrival : Number → ν) (read : ν → μ)

mutual

theorem carried_map (data : Data) :
    (carried arrival data).map (Value.mapNumbers read) = carried (fun number => read (arrival number)) data := by
  match data with
  | .undefined => rw [carried, carried]; rfl
  | .function => rw [carried, carried]; rfl
  | .symbol => rw [carried, carried]; rfl
  | .null => rw [carried, carried]; rfl
  | .bool value => rw [carried, carried]; rfl
  | .number value =>
    rw [carried, carried]
    split <;> rfl
  | .string units => rw [carried, carried]; rfl
  | .boolObject value => rw [carried, carried]; rfl
  | .numberObject value =>
    rw [carried, carried]
    split <;> rfl
  | .stringObject units => rw [carried, carried]; rfl
  | .array items =>
    rw [carried, carried, ← carriedItems_map items, Option.map_map, Option.map_map]
    rfl
  | .object members =>
    rw [carried, carried, ← carriedMembers_map members, Option.map_map, Option.map_map]
    rfl

theorem carriedItems_map (items : List Data) :
    (carriedItems arrival items).map (mapItems read) = carriedItems (fun number => read (arrival number)) items := by
  match items with
  | [] => rw [carriedItems, carriedItems]; rfl
  | item :: rest =>
    rw [carriedItems, carriedItems, ← carriedItems_map rest]
    split
    · cases carriedItems arrival rest <;> rfl
    · rw [← carried_map item]
      cases carried arrival item <;> cases carriedItems arrival rest <;> rfl

theorem carriedMembers_map (members : List (List UInt16 × Data)) :
    (carriedMembers arrival members).map (mapMembers read) =
      carriedMembers (fun number => read (arrival number)) members := by
  match members with
  | [] => rw [carriedMembers, carriedMembers]; rfl
  | (key, value) :: rest =>
    rw [carriedMembers, carriedMembers]
    split
    · exact carriedMembers_map rest
    · rw [← carriedMembers_map rest, ← carried_map value]
      cases carried arrival value <;> cases carriedMembers arrival rest <;> rfl

end

end Mapping

section Delivery

variable (ecvt : Float64 → Decimal)

theorem jsonStringify_sent (space : Space) {data : Data} (sent : data.isUndefined = false) :
    jsonStringify ecvt space data =
      if stringLenMax < (jsonToStr ecvt space.gap [] data).length then .exception
      else .string (.ofUnits (jsonToStr ecvt space.gap [] data)) := by
  have written := StringBuffer.write_empty (jsonToStr ecvt space.gap [] data)
  rw [jsonStringify, sent, if_neg (by simp)]
  split
  · rename_i buffer known
    rw [known, Option.map_some] at written
    split at written
    · cases written
    · rename_i short
      rw [if_neg short, Option.some.inj written]
  · rename_i known
    rw [known, Option.map_none] at written
    split at written
    · rename_i long
      rw [if_pos long]
    · cases written

theorem receive_string {s : JSString} {units : List UInt16} (whole : stringValue s = .ok units) :
    receive (.string s) = (decode units).elim (.error .formatException) .ok := by
  rw [receive, whole]
  simp only [Bind.bind, Except.bind]
  cases decode units <;> rfl

theorem receive_text {space : Space} (blank : ∀ unit ∈ space.gap, isBlank unit = true) {data : Data}
    (sent : data.isUndefined = false) :
    receive (.string (.ofUnits (jsonToStr ecvt space.gap [] data))) =
      if 2 ^ 31 ≤ (JSString.ofUnits (jsonToStr ecvt space.gap [] data)).cStringLen then .error .unsupported
      else (carried (Number.text ecvt) data).elim (.error .formatException) .ok := by
  have crossing := (jsonToStr_clean ecvt blank [] (by simp) data).crosses (jsonToStr_starts ecvt space.gap [] sent)
  have read := value_jsonToStr ecvt blank [] (by simp) data sent _ [] (Nat.le_refl _) (fun _ head => by simp at head)
  rw [List.append_nil] at read
  split
  · rename_i long
    rw [receive, stringValue, jsToCString, if_pos long]
    rfl
  · rename_i short
    have whole := (stringValue_iff (.ofUnits (jsonToStr ecvt space.gap [] data))).mpr ⟨crossing, by omega⟩
    rw [receive_string whole]
    exact congrArg (Option.elim · _ _) (decode_of_value read)

end Delivery

section Results

section Integers

variable (ecvt : Float64 → Decimal)

theorem intText_short {n : Int} (fits : -2 ^ 63 ≤ n ∧ n < 2 ^ 63) : (intText n).length ≤ 21 := by
  have digits : (natText n.natAbs).length ≤ 20 := by
    unfold natText
    split
    · decide
    · rw [List.length_map, List.length_reverse]
      refine (Nat.digits_length_le_iff (by decide) _).mpr ?_
      omega
  unfold intText
  split
  · rw [List.length_cons]
    omega
  · omega

theorem cStringLen_le (text : List UInt16) : (JSString.ofUnits text).cStringLen ≤ text.length * 3 := by
  have count := List.countP_le_length (p := fun unit : UInt16 => decide (0x80 ≤ unit.toNat)) (l := text)
  unfold JSString.cStringLen
  split
  · exact Nat.le_refl _
  · simp only [JSString.ofUnits]
    omega

/-- A short text always gets through. -/
theorem receive_short {space : Space} (blank : ∀ unit ∈ space.gap, isBlank unit = true) {data : Data}
    (sent : data.isUndefined = false) (short : (jsonToStr ecvt space.gap [] data).length ≤ 21) :
    receive (jsonStringify ecvt space data) = (carried (Number.text ecvt) data).elim (.error .formatException) .ok := by
  have length := cStringLen_le (jsonToStr ecvt space.gap [] data)
  rw [jsonStringify_sent ecvt space sent, if_neg (by unfold stringLenMax; omega), receive_text ecvt blank sent,
    if_neg (by omega)]

def half : Decimal := ⟨false, 5, [], 0, by decide, by decide⟩

/-- The text of an integer reads as that integer, wherever the number stands in a message. -/
theorem integer_received (space : Space) (blank : ∀ unit ∈ space.gap, isBlank unit = true) {number : Number} {n : Int}
    (whole : number.integer = some n) (fits : -2 ^ 63 ≤ n ∧ n < 2 ^ 63) :
    receive (jsonStringify ecvt space (.number number)) = .ok (.number (intText n)) ∧
      receive (jsonStringify ecvt space (.numberObject number)) = .ok (.number (intText n)) ∧
      Numeral.parse (intText n) = some n := by
  obtain ⟨finite, text⟩ := number.text_integer ecvt whole
  have short := intText_short fits
  refine ⟨?_, ?_, parse_intText fits⟩
  · rw [receive_short ecvt blank rfl (by rw [jsonToStr, if_pos finite, text]; exact short)]
    simp [carried, finite, text]
  · rw [receive_short ecvt blank rfl (by rw [jsonToStr, text]; exact short)]
    simp [carried, finite, text]

theorem integer_received_largest :
    receive (jsonStringify (fun _ => half) .none (.number (.float 0x433fffffffffffff))) =
        .ok (.number (intText 9007199254740991)) ∧
      Numeral.parse (intText 9007199254740991) = some 9007199254740991 := by
  have whole : (Number.float 0x433fffffffffffff).integer = some 9007199254740991 := by decide
  obtain ⟨plain, _, read⟩ := integer_received (fun _ => half) .none (by simp [Space.gap]) whole (by decide)
  exact ⟨plain, read⟩

end Integers

end Results

end Sano.Runtime.Message
