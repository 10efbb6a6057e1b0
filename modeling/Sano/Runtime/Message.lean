import Sano.Runtime.Number
import Sano.Runtime.Text

namespace Sano.Runtime.Message

section Model

inductive Data where
  | undefined
  | function
  | symbol
  | null
  | bool (value : Bool)
  | number (value : Number)
  | string (units : List UInt16)
  | boolObject (value : Bool)
  | numberObject (value : Number)
  | stringObject (units : List UInt16)
  | array (items : List Data)
  | object (members : List (List UInt16 × Data))

def Data.isUndefined : Data → Bool
  | .undefined => true
  | .function => true
  | .symbol => true
  | _ => false

def hexDigit (n : Nat) : UInt16 := if n < 10 then .ofNat (48 + n) else .ofNat (87 + n)

def hexEscape (c : Nat) : List UInt16 :=
  [0x5c, 0x75, hexDigit (c / 0x1000 % 16), hexDigit (c / 0x100 % 16), hexDigit (c / 0x10 % 16), hexDigit (c % 16)]

def quotePoint (c : Nat) : List UInt16 :=
  if c = 0x09 then [0x5c, 0x74]
  else if c = 0x0d then [0x5c, 0x72]
  else if c = 0x0a then [0x5c, 0x6e]
  else if c = 0x08 then [0x5c, 0x62]
  else if c = 0x0c then [0x5c, 0x66]
  else if c = 0x22 ∨ c = 0x5c then [0x5c, .ofNat c]
  else if c < 32 ∨ Utf16.isSurrogate c then hexEscape c
  else Utf16.encodePoint c

def toQuotedString (units : List UInt16) : List UInt16 := 0x22 :: (Utf16.points units).flatMap quotePoint ++ [0x22]

def nullText : List UInt16 := [0x6e, 0x75, 0x6c, 0x6c]

def boolText : Bool → List UInt16
  | true => [0x74, 0x72, 0x75, 0x65]
  | false => [0x66, 0x61, 0x6c, 0x73, 0x65]

def lineBreak (gap indent : List UInt16) : List UInt16 := if gap = [] then [] else 0x0a :: indent

section Text

variable (ecvt : Float64 → Decimal) (gap : List UInt16)

mutual

def jsonToStr (indent : List UInt16) : Data → List UInt16
  | .undefined => []
  | .function => []
  | .symbol => []
  | .null => nullText
  | .bool value => boolText value
  | .number value => if value.isFinite then value.text ecvt else nullText
  | .string units => toQuotedString units
  | .boolObject value => boolText value
  | .numberObject value => value.text ecvt
  | .stringObject units => toQuotedString units
  | .array items =>
    0x5b :: itemsToStr (indent ++ gap) true items ++ (if items = [] then [] else lineBreak gap indent) ++ [0x5d]
  | .object members =>
    0x7b :: membersToStr (indent ++ gap) true members ++
      (if members.all (·.2.isUndefined) then [] else lineBreak gap indent) ++ [0x7d]

def itemsToStr (indent : List UInt16) (first : Bool) : List Data → List UInt16
  | [] => []
  | item :: rest =>
    (if first then [] else [0x2c]) ++ lineBreak gap indent ++
      (if item.isUndefined then nullText else jsonToStr indent item) ++ itemsToStr indent false rest

def membersToStr (indent : List UInt16) (first : Bool) : List (List UInt16 × Data) → List UInt16
  | [] => []
  | (key, value) :: rest =>
    if value.isUndefined then membersToStr indent first rest
    else
      (if first then [] else [0x2c]) ++ lineBreak gap indent ++ toQuotedString key ++ 0x3a ::
        (if gap = [] then [] else [0x20]) ++ jsonToStr indent value ++ membersToStr indent false rest

end

end Text

inductive Space where
  | none
  | number (n : Int)
  | string (units : List UInt16)

def Space.gap : Space → List UInt16
  | .none => []
  | .number n => List.replicate (max 0 (min n 10)).toNat 0x20
  | .string units => units.take 10

/-- The buffer of the text starts empty. One write of all of it fails exactly when the writes of
    its parts do. -/
def jsonStringify (ecvt : Float64 → Decimal) (space : Space) (value : Data) : JSValue :=
  if value.isUndefined then .undefined
  else
    match (StringBuffer.ofSize 0).write (jsonToStr ecvt space.gap [] value) with
    | some buffer => .string buffer.finish
    | none => .exception

def receive : JSValue → Except Fault JsonText.Written
  | .string text => do
    let text ← stringValue text
    match JsonText.decode text with
    | some value => return value
    | none => throw .formatException
  | _ => throw .typeError

end Model

section Carried

variable {ν : Type} (arrival : Number → ν)

mutual

def carried : Data → Option (JsonText.Value ν)
  | .undefined => none
  | .function => none
  | .symbol => none
  | .null => some .null
  | .bool value => some (.bool value)
  | .number value => some (if value.isFinite then .number (arrival value) else .null)
  | .string units => some (.string units)
  | .boolObject value => some (.bool value)
  | .numberObject value => if value.isFinite then some (.number (arrival value)) else none
  | .stringObject units => some (.string units)
  | .array items => (carriedItems items).map .list
  | .object members => (carriedMembers members).map .map

def carriedItems : List Data → Option (List (JsonText.Value ν))
  | [] => some []
  | item :: rest =>
    (if item.isUndefined then some .null else carried item).bind fun first => (carriedItems rest).map (first :: ·)

def carriedMembers : List (List UInt16 × Data) → Option (List (List UInt16 × JsonText.Value ν))
  | [] => some []
  | (key, value) :: rest =>
    if value.isUndefined then carriedMembers rest
    else (carried value).bind fun held => (carriedMembers rest).map ((key, held) :: ·)

end

end Carried

section Strings

open JsonText

theorem hexDigit_value {n : Nat} (small : n < 16) : Numeral.digit 16 (hexDigit n) = some n := by
  have all : ∀ n : Fin 16, Numeral.digit 16 (hexDigit n) = some n.val := by decide
  exact all ⟨n, small⟩

theorem hexEscape_spells {c : Nat} (bounded : c < 0x10000) : Spells (hexEscape c) [.ofNat c] := by
  have digits : Numeral.magnitude 16
      [hexDigit (c / 0x1000 % 16), hexDigit (c / 0x100 % 16), hexDigit (c / 0x10 % 16), hexDigit (c % 16)] = some c := by
    simp only [Numeral.magnitude, reduceCtorEq, if_false, List.mapM_cons, List.mapM_nil, hexDigit_value,
      Nat.mod_lt _ (show 16 > 0 by decide)]
    simp [Nat.ofDigits_cons, Nat.ofDigits_nil]
    omega
  exact Spells.hexadecimal digits

theorem unit_spells {n : Nat} (small : n < 0x10000) (shown : 32 ≤ n) (other : n ≠ 0x22 ∧ n ≠ 0x5c) :
    Spells [.ofNat n] [.ofNat n] := by
  have value : (UInt16.ofNat n).toNat = n := UInt16.toNat_ofNat_of_lt' (by simpa using small)
  refine Spells.plain ?_ ⟨fun same => ?_, fun same => ?_⟩
  · rw [UInt16.lt_iff_toNat_lt, value]
    simpa using shown
  · rw [same] at value
    exact other.1 value.symm
  · rw [same] at value
    exact other.2 value.symm

theorem quotePoint_spells {c : Nat} (bounded : c < 0x110000) : Spells (quotePoint c) (Utf16.encodePoint c) := by
  have unit {n : Nat} (small : n < 0x10000) : Utf16.encodePoint n = [.ofNat n] := if_pos small
  unfold quotePoint
  split_ifs with tab carriage newline backspace feed quote escaped
  · subst tab
    exact Spells.escape rfl
  · subst carriage
    exact Spells.escape rfl
  · subst newline
    exact Spells.escape rfl
  · subst backspace
    exact Spells.escape rfl
  · subst feed
    exact Spells.escape rfl
  · rcases quote with rfl | rfl <;> exact Spells.escape rfl
  · have small : c < 0x10000 := by
      rcases escaped with control | surrogate
      · omega
      · have := (Utf16.isSurrogate_iff c).mp surrogate
        omega
    rw [unit small]
    exact hexEscape_spells small
  · have shown : 32 ≤ c ∧ (c ≠ 0x22 ∧ c ≠ 0x5c) := by omega
    by_cases small : c < 0x10000
    · rw [unit small]
      exact unit_spells small shown.1 shown.2
    · rw [Utf16.encodePoint, if_neg small]
      have high := unit_spells (n := 0xd800 + (c - 0x10000) / 0x400) (by omega) (by omega) (by omega)
      have low := unit_spells (n := 0xdc00 + (c - 0x10000) % 0x400) (by omega) (by omega) (by omega)
      exact high.append low

theorem stringBody_quoted (units rest : List UInt16) :
    stringBody ((Utf16.points units).flatMap quotePoint ++ 0x22 :: rest) = some (units, rest) := by
  have spells : Spells ((Utf16.points units).flatMap quotePoint) ((Utf16.points units).flatMap Utf16.encodePoint) :=
    Spells.flatMap fun c member => quotePoint_spells (Utf16.points_lt member)
  rw [spells.close]
  exact congrArg (fun back => some (back, rest)) (Utf16.encode_points units)

theorem toQuotedString_append (units rest : List UInt16) :
    toQuotedString units ++ rest = 0x22 :: ((Utf16.points units).flatMap quotePoint ++ 0x22 :: rest) := by
  simp [toQuotedString]

theorem value_quoted (fuel : Nat) (units rest : List UInt16) :
    value (fuel + 1) (toQuotedString units ++ rest) = some (.string units, rest) := by
  rw [toQuotedString_append]
  exact value_string (stringBody_quoted units rest)

end Strings

section Parsed

open JsonText

variable (ecvt : Float64 → Decimal)

def Starts (text : List UInt16) : Prop :=
  ∃ first rest, text = first :: rest ∧ isBlank first = false ∧ first ≠ 0x5d ∧ first ≠ 0xfeff

theorem Starts.of_number {token : List UInt16} (number : isNumber token = true) : Starts token := by
  obtain ⟨first, rest, rfl, start⟩ := isNumber_head number
  refine ⟨first, rest, rfl, ?_⟩
  rcases start with rfl | digit
  · decide
  · simp only [isDigit, Bool.and_eq_true, decide_eq_true_eq, UInt16.le_iff_toNat_le] at digit
    have other (unit : UInt16) (apart : ¬ (0x30 ≤ unit.toNat ∧ unit.toNat ≤ 0x39)) : first ≠ unit := by
      rintro rfl
      exact apart digit
    refine ⟨?_, other 0x5d (by decide), other 0xfeff (by decide)⟩
    simp [isBlank, other 0x20 (by decide), other 0x09 (by decide), other 0x0a (by decide), other 0x0d (by decide)]

theorem special_text {number : Number} (special : number.isFinite = false) :
    number.text ecvt = [0x4e, 0x61, 0x4e] ∨ number.text ecvt = 0x2d :: infinity ∨ number.text ecvt = infinity := by
  cases number with
  | int => simp [Number.isFinite] at special
  | float bits =>
    have unbounded : bits.isFinite = false := special
    simp only [Number.text, dtoa, unbounded, Bool.not_false, if_true]
    split_ifs
    · exact .inl rfl
    · exact .inr (.inl rfl)
    · exact .inr (.inr rfl)

/-- No reader of JSON takes the text of a number that is not finite. -/
theorem value_special {number : Number} (special : number.isFinite = false) (fuel : Nat) (rest : List UInt16) :
    value fuel (number.text ecvt ++ rest) = none := by
  cases fuel with
  | zero => rw [value]
  | succ fuel =>
    rcases special_text ecvt special with text | text | text <;> rw [text] <;>
      simp [value, skip, isBlank, scalar, infinity, isNumberUnit, isDigit, isNumber, isMagnitude, isWhole]

theorem number_starts (number : Number) : Starts (number.text ecvt) := by
  by_cases finite : number.isFinite = true
  · exact Starts.of_number (number.text_isNumber ecvt finite)
  · rcases special_text ecvt (by simpa using finite) with text | text | text <;> rw [text] <;>
      exact ⟨_, _, rfl, by decide⟩

theorem jsonToStr_starts (gap indent : List UInt16) {data : Data} (sent : data.isUndefined = false) :
    Starts (jsonToStr ecvt gap indent data) := by
  have null : Starts nullText := ⟨_, _, rfl, by decide⟩
  have bool (value : Bool) : Starts (boolText value) := by cases value <;> exact ⟨_, _, rfl, by decide⟩
  have quoted (units : List UInt16) : Starts (toQuotedString units) := ⟨_, _, rfl, by decide⟩
  cases data with
  | undefined => simp [Data.isUndefined] at sent
  | function => simp [Data.isUndefined] at sent
  | symbol => simp [Data.isUndefined] at sent
  | null => rw [jsonToStr]; exact null
  | bool value => rw [jsonToStr]; exact bool value
  | number value =>
    rw [jsonToStr]
    split
    · exact number_starts ecvt value
    · exact null
  | string units => rw [jsonToStr]; exact quoted units
  | boolObject value => rw [jsonToStr]; exact bool value
  | numberObject value => rw [jsonToStr]; exact number_starts ecvt value
  | stringObject units => rw [jsonToStr]; exact quoted units
  | array items => rw [jsonToStr]; exact ⟨_, _, rfl, by decide⟩
  | object members => rw [jsonToStr]; exact ⟨_, _, rfl, by decide⟩

variable {gap : List UInt16}

theorem indented_gap {indent : List UInt16} (blank : ∀ unit ∈ gap, isBlank unit = true)
    (indented : ∀ unit ∈ indent, isBlank unit = true) :
    ∀ unit ∈ indent ++ gap, isBlank unit = true := fun unit member =>
  (List.mem_append.mp member).elim (indented unit) (blank unit)

theorem lineBreak_blank (gap : List UInt16) {indent : List UInt16} (indented : ∀ unit ∈ indent, isBlank unit = true) :
    ∀ unit ∈ lineBreak gap indent, isBlank unit = true := by
  unfold lineBreak
  split
  · simp
  · exact List.forall_mem_cons.mpr ⟨rfl, indented⟩

theorem ends_mark {mark : UInt16} (other : isNumberUnit mark = false) (rest : List UInt16) : Delimited (mark :: rest) := by
  intro unit head
  cases head
  exact other

theorem ends_lineBreak {mark : UInt16} (other : isNumberUnit mark = false) (indent rest : List UInt16) :
    Delimited (lineBreak gap indent ++ mark :: rest) := by
  unfold lineBreak
  split
  · exact ends_mark other rest
  · exact ends_mark rfl _

theorem skip_starts {text blanks : List UInt16} (starts : Starts text) (blank : ∀ unit ∈ blanks, isBlank unit = true)
    (rest : List UInt16) : skip (blanks ++ (text ++ rest)) = text ++ rest := by
  obtain ⟨first, tail, rfl, mark, _⟩ := starts
  rw [skip_blanks blank, List.cons_append, skip_cons first mark]

theorem itemsToStr_false (gap indent : List UInt16) (item : Data) (rest : List Data) :
    itemsToStr ecvt gap indent false (item :: rest) = 0x2c :: itemsToStr ecvt gap indent true (item :: rest) := by
  simp [itemsToStr]

theorem membersToStr_false (gap indent : List UInt16) (members : List (List UInt16 × Data)) :
    membersToStr ecvt gap indent false members =
      if members.all (·.2.isUndefined) then [] else 0x2c :: membersToStr ecvt gap indent true members := by
  induction members with
  | nil => rfl
  | cons member rest ih =>
    obtain ⟨key, value⟩ := member
    by_cases skipped : value.isUndefined = true
    · rw [membersToStr, if_pos skipped, membersToStr, if_pos skipped, List.all_cons, skipped, Bool.true_and]
      exact ih
    · simp [membersToStr, skipped]

theorem membersToStr_nil (gap indent : List UInt16) (first : Bool) {members : List (List UInt16 × Data)}
    (nothing : members.all (·.2.isUndefined) = true) : membersToStr ecvt gap indent first members = [] := by
  induction members with
  | nil => rfl
  | cons member rest ih =>
    obtain ⟨key, value⟩ := member
    simp only [List.all_cons, Bool.and_eq_true] at nothing
    rw [membersToStr, if_pos nothing.1]
    exact ih nothing.2

theorem carriedMembers_nil {members : List (List UInt16 × Data)} (nothing : members.all (·.2.isUndefined) = true) :
    carriedMembers (Number.text ecvt) members = some [] := by
  induction members with
  | nil => rfl
  | cons member rest ih =>
    obtain ⟨key, value⟩ := member
    simp only [List.all_cons, Bool.and_eq_true] at nothing
    rw [carriedMembers, if_pos nothing.1]
    exact ih nothing.2

theorem value_scalars (fuel : Nat) (rest : List UInt16) (ends : Delimited rest) (number : Number) :
    value (fuel + 1) (nullText ++ rest) = some (.null, rest) ∧
      (∀ bit, value (fuel + 1) (boolText bit ++ rest) = some (.bool bit, rest)) ∧
      value (fuel + 1) (number.text ecvt ++ rest) =
        (if number.isFinite then some (.number (number.text ecvt)) else none).map fun decoded => (decoded, rest) := by
  refine ⟨value_null rest, fun bit => ?_, ?_⟩
  · cases bit
    · exact value_false rest
    · exact value_true rest
  · by_cases finite : number.isFinite = true
    · rw [if_pos finite]
      exact value_number (number.text_isNumber ecvt finite) ends
    · rw [if_neg finite]
      exact value_special ecvt (by simpa using finite) _ rest

theorem itemsToStr_true (gap indent : List UInt16) (item : Data) (others : List Data) (tail : List UInt16) :
    itemsToStr ecvt gap indent true (item :: others) ++ tail =
      lineBreak gap indent ++ ((if item.isUndefined then nullText else jsonToStr ecvt gap indent item) ++
        (itemsToStr ecvt gap indent false others ++ tail)) := by
  simp [itemsToStr]

theorem item_starts (gap indent : List UInt16) (item : Data) :
    Starts (if item.isUndefined then nullText else jsonToStr ecvt gap indent item) := by
  split
  · exact ⟨_, _, rfl, by decide⟩
  · rename_i sent
    exact jsonToStr_starts ecvt gap indent (by simpa using sent)

theorem items_filled {indent : List UInt16} (indented : ∀ unit ∈ indent, isBlank unit = true) (item : Data)
    (others : List Data) (tail : List UInt16) :
    (skip (itemsToStr ecvt gap indent true (item :: others) ++ tail)).head? ≠ some 0x5d := by
  have starts := item_starts ecvt gap indent item
  rw [itemsToStr_true, skip_starts starts (lineBreak_blank gap indented)]
  obtain ⟨first, more, text, _, other, _⟩ := starts
  simpa [text] using other

theorem membersToStr_true (gap indent : List UInt16) {value : Data} (sent : value.isUndefined = false)
    (key : List UInt16) (others : List (List UInt16 × Data)) (tail : List UInt16) :
    membersToStr ecvt gap indent true ((key, value) :: others) ++ tail =
      lineBreak gap indent ++ (toQuotedString key ++ (0x3a :: ((if gap = [] then [] else [0x20]) ++
        (jsonToStr ecvt gap indent value ++ (membersToStr ecvt gap indent false others ++ tail))))) := by
  simp [membersToStr, sent]

theorem skip_member (gap indent : List UInt16) (indented : ∀ unit ∈ indent, isBlank unit = true) (key rest : List UInt16) :
    skip (lineBreak gap indent ++ (toQuotedString key ++ rest)) =
      0x22 :: ((Utf16.points key).flatMap quotePoint ++ 0x22 :: rest) := by
  rw [skip_blanks (lineBreak_blank gap indented), toQuotedString_append, skip_cons _ rfl]

theorem members_filled {indent : List UInt16} (indented : ∀ unit ∈ indent, isBlank unit = true)
    {members : List (List UInt16 × Data)} (filled : members.all (·.2.isUndefined) = false) (tail : List UInt16) :
    (skip (membersToStr ecvt gap indent true members ++ tail)).head? ≠ some 0x7d := by
  induction members with
  | nil => simp at filled
  | cons member others ih =>
    obtain ⟨key, value⟩ := member
    by_cases skipped : value.isUndefined = true
    · rw [List.all_cons, skipped, Bool.true_and] at filled
      rw [membersToStr, if_pos skipped]
      exact ih filled
    · rw [membersToStr_true ecvt gap indent (by simpa using skipped), skip_member gap indent indented]
      simp

mutual

/-- The reader takes back what was written; the induction is on the value. -/
theorem value_jsonToStr (blank : ∀ unit ∈ gap, isBlank unit = true) (indent : List UInt16)
    (indented : ∀ unit ∈ indent, isBlank unit = true) (data : Data)
    (sent : data.isUndefined = false) (fuel : Nat) (rest : List UInt16)
    (enough : (jsonToStr ecvt gap indent data).length ≤ fuel) (ends : Delimited rest) :
    value fuel (jsonToStr ecvt gap indent data ++ rest) =
      (carried (Number.text ecvt) data).map fun decoded => (decoded, rest) := by
  obtain ⟨fuel, rfl⟩ : ∃ less, fuel = less + 1 := by
    obtain ⟨_, _, text, _⟩ := jsonToStr_starts ecvt gap indent sent
    rw [text, List.length_cons] at enough
    exact ⟨fuel - 1, by omega⟩
  have scalars := value_scalars ecvt fuel rest ends
  match data with
  | .undefined => simp [Data.isUndefined] at sent
  | .function => simp [Data.isUndefined] at sent
  | .symbol => simp [Data.isUndefined] at sent
  | .null =>
    rw [jsonToStr, carried]
    exact (scalars (.int 0)).1
  | .bool bit =>
    rw [jsonToStr, carried]
    exact (scalars (.int 0)).2.1 bit
  | .number number =>
    rw [jsonToStr, carried]
    by_cases finite : number.isFinite = true
    · rw [if_pos finite, if_pos finite]
      have read := (scalars number).2.2
      rwa [if_pos finite] at read
    · rw [if_neg finite, if_neg finite]
      exact (scalars number).1
  | .string units =>
    rw [jsonToStr, carried]
    exact value_quoted fuel units rest
  | .boolObject bit =>
    rw [jsonToStr, carried]
    exact (scalars (.int 0)).2.1 bit
  | .numberObject number =>
    rw [jsonToStr, carried]
    exact (scalars number).2.2
  | .stringObject units =>
    rw [jsonToStr, carried]
    exact value_quoted fuel units rest
  | .array items =>
    rw [jsonToStr, carried]
    cases items with
    | nil => exact value_list_nil (skip_cons _ rfl rest)
    | cons item others =>
      rw [jsonToStr] at enough
      have shape : 0x5b :: itemsToStr ecvt gap (indent ++ gap) true (item :: others) ++
          (if item :: others = [] then [] else lineBreak gap indent) ++ [0x5d] ++ rest =
          0x5b :: (itemsToStr ecvt gap (indent ++ gap) true (item :: others) ++ (lineBreak gap indent ++ 0x5d :: rest)) := by
        simp
      rw [shape, value_list]
      · rw [items_itemsToStr blank (indent ++ gap) (indented_gap blank indented) (item :: others) (by simp) fuel _ rest ?_ ?_ ?_]
        · rw [Option.map_map, Option.map_map]
          rfl
        · simp at enough
          omega
        · rw [skip_blanks (lineBreak_blank gap indented), skip_cons _ rfl]
        · exact ends_lineBreak rfl indent rest
      · exact items_filled ecvt (indented_gap blank indented) item others _
  | .object members =>
    rw [jsonToStr, carried]
    by_cases nothing : members.all (·.2.isUndefined) = true
    · rw [membersToStr_nil ecvt gap _ true nothing, carriedMembers_nil ecvt nothing, if_pos nothing]
      exact value_map_nil (skip_cons _ rfl rest)
    · rw [jsonToStr, if_neg nothing] at enough
      have filled : members.all (·.2.isUndefined) = false := by simpa using nothing
      have shape : 0x7b :: membersToStr ecvt gap (indent ++ gap) true members ++ lineBreak gap indent ++ [0x7d] ++ rest =
          0x7b :: (membersToStr ecvt gap (indent ++ gap) true members ++ (lineBreak gap indent ++ 0x7d :: rest)) := by
        simp
      rw [if_neg nothing, shape, value_map]
      · rw [members_membersToStr blank (indent ++ gap) (indented_gap blank indented) members filled fuel _ rest ?_ ?_ ?_]
        · rw [Option.map_map, Option.map_map]
          rfl
        · simp at enough
          omega
        · rw [skip_blanks (lineBreak_blank gap indented), skip_cons _ rfl]
        · exact ends_lineBreak rfl indent rest
      · exact members_filled ecvt (indented_gap blank indented) filled _

theorem items_itemsToStr (blank : ∀ unit ∈ gap, isBlank unit = true) (indent : List UInt16)
    (indented : ∀ unit ∈ indent, isBlank unit = true) (list : List Data)
    (filled : list ≠ []) (fuel : Nat) (tail rest : List UInt16)
    (enough : (itemsToStr ecvt gap indent true list).length + 1 ≤ fuel) (close : skip tail = 0x5d :: rest)
    (ends : Delimited tail) :
    items fuel (itemsToStr ecvt gap indent true list ++ tail) =
      (carriedItems (Number.text ecvt) list).map fun found => (found, rest) := by
  match list with
  | [] => exact absurd rfl filled
  | item :: others =>
    obtain ⟨fuel, rfl⟩ : ∃ less, fuel = less + 1 := ⟨fuel - 1, by omega⟩
    have length := congrArg List.length (itemsToStr_true ecvt gap indent item others [])
    simp only [List.append_nil, List.length_append] at length
    have ended : Delimited (itemsToStr ecvt gap indent false others ++ tail) := by
      cases others with
      | nil => simpa [itemsToStr] using ends
      | cons next more =>
        rw [itemsToStr_false]
        exact ends_mark rfl _
    -- the first item, with its line break
    have read : value fuel (itemsToStr ecvt gap indent true (item :: others) ++ tail) =
        (if item.isUndefined then some .null else carried (Number.text ecvt) item).map fun decoded =>
          (decoded, itemsToStr ecvt gap indent false others ++ tail) := by
      rw [itemsToStr_true, value_skip (skip_blanks (lineBreak_blank gap indented) _)]
      by_cases skipped : item.isUndefined = true
      · rw [if_pos skipped] at length
        obtain ⟨less, rfl⟩ : ∃ less, fuel = less + 1 := ⟨fuel - 1, by simp [nullText] at length; omega⟩
        rw [if_pos skipped, if_pos skipped]
        exact value_null _
      · rw [if_neg skipped] at length
        rw [if_neg skipped, if_neg skipped]
        exact value_jsonToStr blank indent indented item (by simpa using skipped) fuel _ (by omega) ended
    rw [carriedItems]
    cases first : (if item.isUndefined then some .null else carried (Number.text ecvt) item) with
    | none =>
      rw [first] at read
      exact items_none read
    | some decoded =>
      rw [first] at read
      match others with
      | [] => exact items_last read close
      | next :: more =>
        rw [itemsToStr_false, List.cons_append] at read
        rw [itemsToStr_false] at length
        have later := items_itemsToStr blank indent indented (next :: more) (by simp) fuel tail rest
          (by simp at length; omega) close ends
        rw [items_more read (skip_cons _ rfl _), later]
        rw [Option.map_map, Option.bind_some, Option.map_map]
        rfl

theorem members_membersToStr (blank : ∀ unit ∈ gap, isBlank unit = true) (indent : List UInt16)
    (indented : ∀ unit ∈ indent, isBlank unit = true)
    (pairs : List (List UInt16 × Data)) (filled : pairs.all (·.2.isUndefined) = false) (fuel : Nat)
    (tail rest : List UInt16) (enough : (membersToStr ecvt gap indent true pairs).length + 1 ≤ fuel)
    (close : skip tail = 0x7d :: rest) (ends : Delimited tail) :
    members fuel (membersToStr ecvt gap indent true pairs ++ tail) =
      (carriedMembers (Number.text ecvt) pairs).map fun found => (found, rest) := by
  match pairs with
  | [] => simp at filled
  | (key, value) :: others =>
    by_cases skipped : value.isUndefined = true
    · rw [List.all_cons, skipped, Bool.true_and] at filled
      rw [membersToStr, if_pos skipped] at enough ⊢
      rw [carriedMembers, if_pos skipped]
      exact members_membersToStr blank indent indented others filled fuel tail rest enough close ends
    · have sent : value.isUndefined = false := by simpa using skipped
      obtain ⟨fuel, rfl⟩ : ∃ less, fuel = less + 1 := ⟨fuel - 1, by omega⟩
      have length := congrArg List.length (membersToStr_true ecvt gap indent sent key others [])
      simp only [List.append_nil, List.length_append, List.length_cons] at length
      have ended : Delimited (membersToStr ecvt gap indent false others ++ tail) := by
        rw [membersToStr_false]
        split
        · exact ends
        · exact ends_mark rfl _
      have spaced : ∀ unit ∈ (if gap = [] then [] else [0x20] : List UInt16), isBlank unit = true := by
        split <;> simp [isBlank]
      have read := value_jsonToStr blank indent indented value sent fuel _ (by omega) ended
      rw [← value_skip (skip_blanks spaced _)] at read
      have quote := skip_member gap indent indented key
      rw [membersToStr_true ecvt gap indent sent, carriedMembers, if_neg skipped]
      cases held : carried (Number.text ecvt) value with
      | none =>
        rw [held] at read
        exact members_none (quote _) (stringBody_quoted key _) read
      | some decoded =>
        rw [held] at read
        by_cases last : others.all (·.2.isUndefined) = true
        · rw [membersToStr_nil ecvt gap indent false last, List.nil_append] at read ⊢
          rw [carriedMembers_nil ecvt last]
          exact members_last (quote _) (stringBody_quoted key _) read close
        · rw [membersToStr_false, if_neg last] at read length ⊢
          rw [List.cons_append] at read ⊢
          have later := members_membersToStr blank indent indented others (by simpa using last) fuel tail rest
            (by simp at length; omega) close ends
          rw [members_more (quote _) (stringBody_quoted key _) read (skip_cons _ rfl _), later]
          rw [Option.map_map, Option.bind_some, Option.map_map]
          rfl

end

end Parsed

end Sano.Runtime.Message
