import Mathlib.Data.List.TakeWhile
import Sano.Base.Utf8
import Sano.Runtime.StringBuffer

namespace Sano.Runtime

section Model

def replaced (point : Nat) : Nat := if Utf16.isSurrogate point then 0xfffd else point

def toNativeUtf8 (text : List UInt16) : List UInt8 := Utf8.encode ((Utf16.points text).map replaced) ++ [0]

def cString (memory : List UInt8) : List UInt8 := memory.takeWhile (· ≠ 0)

def skipInvalid (bytes : List UInt8) : List UInt8 :=
  match bytes.dropWhile Utf8.isTrailing with
  | [] => []
  | _ :: rest => rest.dropWhile Utf8.isTrailing

def unitsOf : Nat → List UInt8 → List UInt16
  | _, [] => []
  | 0, _ :: _ => []
  | fuel + 1, bytes =>
    match Utf8.decodePoint bytes with
    | some (point, rest) =>
      if point < 0x110000 then Utf16.encodePoint point ++ unitsOf fuel rest
      else 0xfffd :: unitsOf fuel (skipInvalid bytes)
    | none => 0xfffd :: unitsOf fuel (skipInvalid bytes)

def newString8 (bytes : List UInt8) : JSString :=
  ⟨bytes.map UInt8.toUInt16, false, fun _ => by
    rw [List.any_map, List.any_eq_false]
    intro byte _
    simp [isWide, byte.toNat_lt]⟩

def newStringLen (bytes : List UInt8) : Option JSString :=
  let ascii := bytes.takeWhile (·.toNat < 0x80)
  let rest := bytes.dropWhile (·.toNat < 0x80)
  if stringLenMax < ascii.length then none
  else if rest = [] then some (newString8 bytes)
  else do
    let buffer ← StringBuffer.init bytes.length
    let buffer ← buffer.write (ascii.map UInt8.toUInt16)
    let buffer ← buffer.putcs (unitsOf rest.length rest)
    return buffer.finish

def newString (memory : List UInt8) : Option JSString := newStringLen (cString memory)

def jsToCString (s : JSString) : Option (List UInt8) :=
  if 2 ^ 31 ≤ s.cStringLen then none else some (Utf8.encode (Utf16.points s.units) ++ [0])

def decodeUtf8 (bytes : List UInt8) : Except Fault (List UInt16) :=
  match Utf8.decode bytes.length bytes with
  | some points => .ok (Utf16.encode (dropMark points))
  | none => .error .formatException

def stringValue (s : JSString) : Except Fault (List UInt16) :=
  match jsToCString s with
  | some memory => decodeUtf8 (cString memory)
  | none => .error .unsupported

/-- `JSString.create(context, text).value`. `JS_ToCString` makes no text of a failed `JS_NewString`. -/
def createdValue (text : List UInt16) : Except Fault (List UInt16) :=
  match newString (toNativeUtf8 text) with
  | some s => stringValue s
  | none => .error .unsupported

def Crosses (units : List UInt16) : Prop :=
  0 ∉ units ∧ Utf16.isWellFormed units = true ∧ units.head? ≠ some 0xfeff

def Sendable (text : List UInt16) : Prop :=
  (text.takeWhile (·.toNat < 0x80)).length ≤ stringLenMax ∧
    if text.any isWide then (Utf8.encode (Utf16.points text)).length < 2 ^ 30 ∧ text.length * 3 < 2 ^ 31
    else (Utf8.encode (Utf16.points text)).length < 2 ^ 31

end Model

section Reading

theorem dropMark_eq_self {points : List Nat} (unmarked : points.head? ≠ some 0xfeff) : dropMark points = points := by
  unfold dropMark
  split
  · simp at unmarked
  · rfl

theorem dropMark_sublist (points : List Nat) : (dropMark points).Sublist points := by
  unfold dropMark
  split
  · exact List.sublist_cons_self _ _
  · exact List.Sublist.refl _

theorem head_dropMark (points : List Nat) (same : dropMark points = points) : points.head? ≠ some 0xfeff := by
  intro marked
  obtain ⟨rest, rfl⟩ := List.head?_eq_some_iff.mp marked
  simpa [dropMark] using congrArg List.length same

theorem whole_iff (points : List Nat) : points.takeWhile (· ≠ 0) = points ↔ 0 ∉ points := by
  rw [List.takeWhile_eq_self_iff]
  constructor
  · intro passes zero
    simpa using passes 0 zero
  · intro none point member
    rw [decide_eq_true_eq]
    rintro rfl
    exact none member

/-- Neither the NUL nor the mark takes anything away. -/
theorem trimmed_iff (points : List Nat) :
    dropMark (points.takeWhile (· ≠ 0)) = points ↔ 0 ∉ points ∧ points.head? ≠ some 0xfeff := by
  constructor
  · intro same
    have kept : points.takeWhile (· ≠ 0) = points := by
      refine (List.takeWhile_sublist _).eq_of_length_le ?_
      have := (dropMark_sublist (points.takeWhile (· ≠ 0))).length_le
      rwa [same] at this
    rw [kept] at same
    exact ⟨(whole_iff points).mp kept, head_dropMark points same⟩
  · rintro ⟨whole, unmarked⟩
    rw [(whole_iff points).mpr whole, dropMark_eq_self unmarked]

theorem crosses_iff (units : List UInt16) :
    Crosses units ↔ (∀ point ∈ Utf16.points units, Utf16.Scalar point) ∧
      dropMark ((Utf16.points units).takeWhile (· ≠ 0)) = Utf16.points units := by
  have head : (Utf16.points units).head? = some 0xfeff ↔ units.head? = some 0xfeff :=
    Utf16.points_head units 0xfeff (by decide)
  rw [trimmed_iff, Utf16.zero_mem_points, ne_eq, head, ← Utf16.isWellFormed_iff, Crosses]
  tauto

theorem scalar_dropMark {points : List Nat} (scalar : ∀ point ∈ points, Utf16.Scalar point) :
    ∀ point ∈ dropMark points, Utf16.Scalar point := fun point member =>
  scalar point ((dropMark_sublist points).subset member)

theorem scalar_takeWhile {points : List Nat} (scalar : ∀ point ∈ points, Utf16.Scalar point) (test : Nat → Bool) :
    ∀ point ∈ points.takeWhile test, Utf16.Scalar point := fun point member =>
  scalar point ((List.takeWhile_sublist test).subset member)

/-- The getter on the level of bytes agrees with the one on code points. -/
theorem stringValue_eq (s : JSString) : stringValue s = (toDartString s).map Utf16.encode := by
  unfold stringValue jsToCString toDartString
  dsimp only
  by_cases long : 2 ^ 31 ≤ s.cStringLen
  · rw [if_pos long, if_pos long]
    rfl
  · have bounded : ∀ point ∈ Utf16.points s.units, point < 0x110000 := fun _ => Utf16.points_lt
    have read : cString (Utf8.encode (Utf16.points s.units) ++ [0]) =
        Utf8.encode ((Utf16.points s.units).takeWhile (· ≠ 0)) := Utf8.encode_takeWhile bounded
    have shorter : ∀ point ∈ (Utf16.points s.units).takeWhile (· ≠ 0), point < 0x110000 := fun point member =>
      bounded point ((List.takeWhile_sublist _).subset member)
    rw [if_neg long, if_neg long]
    dsimp only
    rw [read, decodeUtf8, Utf8.decode_encode shorter _ (Utf8.length_le_encode _)]
    split_ifs <;> rfl

theorem stringValue_iff (s : JSString) : stringValue s = .ok s.units ↔ Crosses s.units ∧ s.cStringLen < 2 ^ 31 := by
  rw [stringValue_eq, crosses_iff]
  unfold toDartString
  dsimp only
  split
  · rename_i long
    exact iff_of_false (by simp [Except.map]) fun both => by omega
  · rename_i short
    rw [and_iff_left (by omega)]
    split
    · rename_i lone
      refine iff_of_false (by simp [Except.map]) fun crossing => ?_
      obtain ⟨point, member, surrogate⟩ := List.any_eq_true.mp lone
      have := (crossing.1 point ((List.takeWhile_sublist _).subset member)).2
      simp [surrogate] at this
    · rename_i plain
      have scalar : ∀ point ∈ dropMark ((Utf16.points s.units).takeWhile (· ≠ 0)), Utf16.Scalar point := by
        refine scalar_dropMark fun point member => ⟨?_, ?_⟩
        · exact Utf16.points_lt ((List.takeWhile_sublist _).subset member)
        · rw [Bool.eq_false_iff]
          exact fun surrogate => plain (List.any_eq_true.mpr ⟨point, member, surrogate⟩)
      simp only [Except.map, Except.ok.injEq]
      constructor
      · intro same
        have equal : dropMark ((Utf16.points s.units).takeWhile (· ≠ 0)) = Utf16.points s.units := by
          rw [← Utf16.points_encode scalar, same]
        exact ⟨equal ▸ scalar, equal⟩
      · rintro ⟨_, equal⟩
        rw [equal, Utf16.encode_points]

end Reading

section Creating

theorem unitsOf_encode {points : List Nat} (bounded : ∀ point ∈ points, point < 0x110000) (fuel : Nat)
    (enough : points.length ≤ fuel) : unitsOf fuel (Utf8.encode points) = Utf16.encode points := by
  induction points generalizing fuel with
  | nil => cases fuel <;> rfl
  | cons point points ih =>
    obtain ⟨fuel, rfl⟩ : ∃ more, fuel = more + 1 := ⟨fuel - 1, by simp at enough; omega⟩
    have here := bounded point List.mem_cons_self
    have later := ih (fun point member => bounded point (List.mem_cons_of_mem _ member)) fuel (by simpa using enough)
    have read := Utf8.decodePoint_encodePoint here (Utf8.encode points)
    rcases bytes : Utf8.encodePoint point with _ | ⟨first, rest⟩
    · exact absurd bytes (Utf8.encodePoint_ne_nil point)
    · rw [bytes, List.cons_append] at read
      rw [Utf8.encode_cons, bytes, List.cons_append]
      simp only [unitsOf, read, later, here, if_true, Utf16.encode_cons]

def Admitted (points : List Nat) : Prop :=
  (points.takeWhile (· < 0x80)).length ≤ stringLenMax ∧ (Utf8.encode points).length < 2 ^ 31 ∧
    ((Utf16.encode points).any isWide = true → (Utf8.encode points).length < 2 ^ 30)

instance (points : List Nat) : Decidable (Admitted points) := inferInstanceAs (Decidable (_ ∧ _ ∧ _))

theorem narrow_ascii {points : List Nat} (ascii : ∀ point ∈ points, point < 0x80) :
    (Utf16.encode points).any isWide = false := by
  rw [← (Utf8.latin_iff points).mpr ascii]
  exact (newString8 (Utf8.encode points)).narrow rfl

theorem ascii_takeWhile (points : List Nat) : ∀ point ∈ points.takeWhile (· < 0x80), point < 0x80 := fun point member => by
  simpa using List.mem_takeWhile_imp member

theorem takeWhile_ascii {points : List Nat} (ascii : ∀ point ∈ points, point < 0x80) :
    points.takeWhile (· < 0x80) = points :=
  List.takeWhile_eq_self_iff.mpr fun point member => decide_eq_true (ascii point member)

theorem admitted_ascii {points : List Nat} (ascii : ∀ point ∈ points, point < 0x80)
    (short : points.length ≤ stringLenMax) : Admitted points := by
  refine ⟨(List.takeWhile_sublist _).length_le.trans short, ?_, fun wide => ?_⟩
  · rw [Utf8.length_encode_ascii ascii]
    unfold stringLenMax at short
    omega
  · rw [narrow_ascii ascii] at wide
    cases wide

section Buffered

variable {points : List Nat}

theorem newStringLen_ascii (bounded : ∀ point ∈ points, point < 0x110000)
    (ascii : points.dropWhile (· < 0x80) = []) (short : points.length ≤ stringLenMax) :
    newStringLen (Utf8.encode points) = some (.ofUnits (Utf16.encode points)) := by
  have all : ∀ point ∈ points, point < 0x80 := by simpa using ascii
  obtain ⟨first, rest⟩ := Utf8.span_encode bounded
  rw [newStringLen, first, rest, ascii, takeWhile_ascii all, Utf8.length_encode_ascii all, if_neg (Nat.not_lt.mpr short),
    if_pos (Utf8.encode_eq_nil.mpr rfl)]
  exact congrArg some (JSString.ext ((Utf8.latin_iff points).mpr all) (narrow_ascii all).symm)

/-- Anything but ASCII goes through a buffer of the size of the bytes. -/
theorem newStringLen_buffer (bounded : ∀ point ∈ points, point < 0x110000)
    (other : points.dropWhile (· < 0x80) ≠ [])
    (short : (points.takeWhile (· < 0x80)).length ≤ stringLenMax) :
    newStringLen (Utf8.encode points) =
      (StringBuffer.init (Utf8.encode points).length).bind fun buffer =>
        (buffer.write (Utf16.encode (points.takeWhile (· < 0x80)))).bind fun buffer =>
          (buffer.putcs (Utf16.encode (points.dropWhile (· < 0x80)))).bind fun buffer => some buffer.finish := by
  have ascii := ascii_takeWhile points
  have later : ∀ point ∈ points.dropWhile (· < 0x80), point < 0x110000 := fun point member =>
    bounded point ((List.dropWhile_sublist _).subset member)
  obtain ⟨first, rest⟩ := Utf8.span_encode bounded
  rw [newStringLen, first, rest, Utf8.length_encode_ascii ascii, if_neg (Nat.not_lt.mpr short),
    if_neg (mt Utf8.encode_eq_nil.mp other), (Utf8.latin_iff _).mpr ascii,
    unitsOf_encode later _ (Utf8.length_le_encode _)]
  rfl

theorem encode_span (points : List Nat) :
    Utf16.encode (points.takeWhile (· < 0x80)) ++ Utf16.encode (points.dropWhile (· < 0x80)) = Utf16.encode points := by
  rw [Utf16.encode, Utf16.encode, ← List.flatMap_append, List.takeWhile_append_dropWhile]
  rfl

theorem wide_span (points : List Nat) :
    (Utf16.encode (points.dropWhile (· < 0x80))).any isWide = (Utf16.encode points).any isWide := by
  rw [← encode_span points, List.any_append, narrow_ascii (ascii_takeWhile points), Bool.false_or]

theorem length_span (points : List Nat) :
    (Utf16.encode (points.takeWhile (· < 0x80))).length + (Utf16.encode (points.dropWhile (· < 0x80))).length =
      (Utf16.encode points).length := by
  rw [← List.length_append, encode_span]

theorem newStringLen_admitted (bounded : ∀ point ∈ points, point < 0x110000)
    (admitted : Admitted points) :
    newStringLen (Utf8.encode points) = some (.ofUnits (Utf16.encode points)) := by
  obtain ⟨short, size, narrow⟩ := admitted
  by_cases ascii : points.dropWhile (· < 0x80) = []
  · have all : ∀ point ∈ points, point < 0x80 := by simpa using ascii
    exact newStringLen_ascii bounded ascii (takeWhile_ascii all ▸ short)
  · have units := Utf8.units_le_bytes points
    have parts := length_span points
    have first := narrow_ascii (ascii_takeWhile points)
    rw [newStringLen_buffer bounded ascii short, StringBuffer.init_of_lt size, Option.bind_some, StringBuffer.write,
      StringBuffer.reserve_of_room (by simp [StringBuffer.ofSize]; omega) (by simp [first]), Option.map_some,
      Option.bind_some]
    obtain ⟨after, written, text, wide⟩ := StringBuffer.putcs_of_room
      ((StringBuffer.ofSize (Utf8.encode points).length).append (Utf16.encode (points.takeWhile (· < 0x80)))
        (Utf8.encode points).length)
      (Utf16.encode (points.dropWhile (· < 0x80))) (by simp [StringBuffer.append, StringBuffer.ofSize]; omega)
      (fun wide => by
        have := narrow (wide_span points ▸ wide)
        simp only [StringBuffer.append]
        omega)
    refine (congrArg (fun done => Option.bind done _) written).trans ?_
    refine congrArg some (JSString.ext ?_ ?_)
    · exact text.trans (encode_span points)
    · refine wide.trans ?_
      simp only [StringBuffer.append, StringBuffer.ofSize, first, Bool.false_or, wide_span]
      rfl

theorem newStringLen_refused (bounded : ∀ point ∈ points, point < 0x110000)
    (refused : ¬ Admitted points) : newStringLen (Utf8.encode points) = none := by
  by_cases short : (points.takeWhile (· < 0x80)).length ≤ stringLenMax
  · have other : points.dropWhile (· < 0x80) ≠ [] := by
      intro ascii
      have all : ∀ point ∈ points, point < 0x80 := by simpa using ascii
      exact refused (admitted_ascii all (takeWhile_ascii all ▸ short))
    have units := Utf8.units_le_bytes points
    have bytes := Utf8.bytes_le_units points
    have parts := length_span points
    rw [newStringLen_buffer bounded other short]
    by_cases size : (Utf8.encode points).length < 2 ^ 31
    · obtain ⟨wide, large⟩ : (Utf16.encode points).any isWide = true ∧ 2 ^ 30 ≤ (Utf8.encode points).length := by
        by_contra neither
        exact refused ⟨short, size, fun wide => by
          by_contra large
          exact neither ⟨wide, by omega⟩⟩
      rw [StringBuffer.init_of_lt size, Option.bind_some, StringBuffer.write, StringBuffer.reserve_of_room
        (by simp [StringBuffer.ofSize]; omega) (by simp [narrow_ascii (ascii_takeWhile points)]), Option.map_some,
        Option.bind_some]
      refine (congrArg (fun done => Option.bind done _) (StringBuffer.putcs_wide ?_ ?_ ?_ ?_)).trans rfl
      · exact narrow_ascii (ascii_takeWhile points)
      · rw [wide_span, wide]
      · simp [StringBuffer.append, StringBuffer.ofSize]
        omega
      · simp only [StringBuffer.append, StringBuffer.ofSize]
        omega
    · by_contra made
      obtain ⟨done, made⟩ := Option.ne_none_iff_exists'.mp made
      obtain ⟨empty, started, made⟩ := Option.bind_eq_some_iff.mp made
      obtain ⟨first, wrote, made⟩ := Option.bind_eq_some_iff.mp made
      obtain ⟨all, put, _⟩ := Option.bind_eq_some_iff.mp made
      obtain ⟨nothing, start⟩ := StringBuffer.init_spec started
      obtain ⟨block, sized, rfl⟩ := StringBuffer.write_spec wrote
      obtain ⟨inside, bound⟩ := StringBuffer.reserve_size sized
      have total := StringBuffer.putcs_size put (by simp only [StringBuffer.append, List.length_append]; exact inside)
      simp only [StringBuffer.append, List.length_append, nothing, List.length_nil, Nat.zero_add] at total inside
      unfold stringLenMax at total bound
      omega
  · obtain ⟨first, _⟩ := Utf8.span_encode bounded
    rw [newStringLen, first, Utf8.length_encode_ascii (ascii_takeWhile points), if_pos (by omega)]

theorem newStringLen_encode (bounded : ∀ point ∈ points, point < 0x110000) :
    newStringLen (Utf8.encode points) =
      if Admitted points then some (.ofUnits (Utf16.encode points)) else none := by
  split
  · rename_i admitted
    exact newStringLen_admitted bounded admitted
  · rename_i refused
    exact newStringLen_refused bounded refused

end Buffered

theorem scalar_replaced {point : Nat} (bounded : point < 0x110000) : Utf16.Scalar (replaced point) := by
  unfold replaced
  split
  · exact ⟨by decide, by decide⟩
  · rename_i plain
    exact ⟨bounded, by simpa using plain⟩

theorem replaced_scalar {point : Nat} (scalar : Utf16.Scalar point) : replaced point = point := by
  rw [replaced, scalar.2]
  rfl

def sent (text : List UInt16) : List Nat := ((Utf16.points text).map replaced).takeWhile (· ≠ 0)

theorem scalar_sent (text : List UInt16) : ∀ point ∈ sent text, Utf16.Scalar point := by
  refine scalar_takeWhile (fun point member => ?_) _
  obtain ⟨original, there, rfl⟩ := List.mem_map.mp member
  exact scalar_replaced (Utf16.points_lt there)

theorem sent_of_scalar {text : List UInt16} (scalar : ∀ point ∈ Utf16.points text, Utf16.Scalar point) :
    sent text = (Utf16.points text).takeWhile (· ≠ 0) := by
  rw [sent, List.map_congr_left fun point member => replaced_scalar (scalar point member), List.map_id']

theorem cString_toNativeUtf8 (text : List UInt16) : cString (toNativeUtf8 text) = Utf8.encode (sent text) := by
  refine Utf8.encode_takeWhile fun point member => ?_
  obtain ⟨original, there, rfl⟩ := List.mem_map.mp member
  exact (scalar_replaced (Utf16.points_lt there)).1

theorem newString_eq (text : List UInt16) :
    newString (toNativeUtf8 text) = if Admitted (sent text) then some (.ofUnits (Utf16.encode (sent text))) else none := by
  rw [newString, cString_toNativeUtf8]
  exact newStringLen_encode fun point member => (scalar_sent text point member).1

/-- What was sent has neither a NUL nor an unpaired surrogate. -/
theorem stringValue_sent (text : List UInt16) :
    stringValue (.ofUnits (Utf16.encode (sent text))) =
      if 2 ^ 31 ≤ (JSString.ofUnits (Utf16.encode (sent text))).cStringLen then .error .unsupported
      else .ok (Utf16.encode (dropMark (sent text))) := by
  have points : Utf16.points (JSString.ofUnits (Utf16.encode (sent text))).units = sent text :=
    Utf16.points_encode (scalar_sent text)
  have whole : (sent text).takeWhile (· ≠ 0) = sent text := List.takeWhile_idem
  have plain : ¬ (sent text).any Utf16.isSurrogate = true := by
    rw [List.any_eq_true]
    rintro ⟨point, member, surrogate⟩
    simp [(scalar_sent text point member).2] at surrogate
  rw [stringValue_eq, toDartString, points, whole]
  simp only [plain, Bool.false_eq_true, if_false]
  split <;> rfl

theorem sent_iff (text : List UInt16) : Utf16.encode (dropMark (sent text)) = text ↔ Crosses text := by
  rw [crosses_iff]
  have scalar := scalar_dropMark (scalar_sent text)
  constructor
  · intro same
    have equal : dropMark (sent text) = Utf16.points text := by rw [← Utf16.points_encode scalar, same]
    have plain : ∀ point ∈ Utf16.points text, Utf16.Scalar point := equal ▸ scalar
    exact ⟨plain, by rw [← sent_of_scalar plain, equal]⟩
  · rintro ⟨plain, equal⟩
    rw [sent_of_scalar plain, equal, Utf16.encode_points]

theorem sent_eq_points {text : List UInt16} (crossing : Crosses text) : sent text = Utf16.points text := by
  obtain ⟨plain, equal⟩ := (crosses_iff text).mp crossing
  rw [sent_of_scalar plain, whole_iff]
  exact ((trimmed_iff _).mp equal).1

/-- A narrow text takes as many bytes as `JS_ToCStringLen2` counts. -/
theorem narrow_bytes {text : List UInt16} (narrow : text.any isWide = false) :
    (Utf8.encode (Utf16.points text)).length = text.length + text.countP (0x80 ≤ ·.toNat) := by
  have small : ∀ unit ∈ text, unit.toNat < 0x100 := by simpa [isWide] using narrow
  have points : Utf16.points text = text.map UInt16.toNat := by
    clear narrow
    induction text with
    | nil => rfl
    | cons unit rest ih =>
      obtain ⟨here, later⟩ := List.forall_mem_cons.mp small
      have alone : Utf16.isHigh unit = false := by
        rw [Bool.eq_false_iff, ne_eq, Utf16.isHigh_iff]
        omega
      rw [Utf16.points_single rest alone, ih later, List.map_cons]
  rw [points, Utf8.length_encode_short, List.length_map, List.countP_map]
  · rfl
  · intro point member
    obtain ⟨unit, here, rfl⟩ := List.mem_map.mp member
    have := small unit here
    omega

theorem sendable_iff {text : List UInt16} (crossing : Crosses text) :
    Sendable text ↔ Admitted (sent text) ∧ (JSString.ofUnits text).cStringLen < 2 ^ 31 := by
  rw [Sendable, Admitted, sent_eq_points crossing, Utf16.points_ascii, Utf16.encode_points, JSString.cStringLen]
  cases narrow : text.any isWide with
  | true =>
    simp only [JSString.ofUnits, narrow, if_true, forall_const]
    constructor
    · rintro ⟨short, bytes, length⟩
      exact ⟨⟨short, by omega, bytes⟩, length⟩
    · rintro ⟨⟨short, _, bytes⟩, length⟩
      exact ⟨short, bytes, length⟩
  | false =>
    have bytes := narrow_bytes narrow
    simp only [JSString.ofUnits, narrow, Bool.false_eq_true, if_false, false_implies, and_true]
    rw [bytes]
    exact ⟨fun both => ⟨both, both.2⟩, And.left⟩

theorem createdValue_iff (text : List UInt16) : createdValue text = .ok text ↔ Crosses text ∧ Sendable text := by
  have back (crossing : Crosses text) : Utf16.encode (sent text) = text := by
    rw [sent_eq_points crossing, Utf16.encode_points]
  rw [createdValue, newString_eq]
  by_cases admitted : Admitted (sent text)
  · rw [if_pos admitted]
    dsimp only
    rw [stringValue_sent]
    split
    · rename_i long
      refine iff_of_false (by simp) fun ⟨crossing, sendable⟩ => ?_
      rw [back crossing] at long
      have := ((sendable_iff crossing).mp sendable).2
      omega
    · rename_i short
      rw [Except.ok.injEq, sent_iff]
      refine ⟨fun crossing => ⟨crossing, (sendable_iff crossing).mpr ⟨admitted, ?_⟩⟩, And.left⟩
      rw [← back crossing]
      omega
  · rw [if_neg admitted]
    exact iff_of_false (by simp) fun ⟨crossing, sendable⟩ => admitted ((sendable_iff crossing).mp sendable).1

/-- A text comes back as it was exactly when it has no U+0000 and no unpaired
    surrogate and does not start with U+FEFF, and no length on the way overflows. -/
theorem transport_lossless_iff (text : List UInt16) (s : JSString) :
    (createdValue text = .ok text ↔ Crosses text ∧ Sendable text) ∧
      (stringValue s = .ok s.units ↔ Crosses s.units ∧ s.cStringLen < 2 ^ 31) :=
  ⟨createdValue_iff text, stringValue_iff s⟩

/-- `"a\0b"` loses its end, an unpaired surrogate is replaced on the way in and
    refused on the way out. -/
theorem nul_truncates :
    createdValue [0x61, 0, 0x62] = .ok [0x61] ∧ createdValue [0xd800] = .ok [0xfffd] ∧
      stringValue (.ofUnits [0xd800]) = .error .formatException := by
  decide +kernel

end Creating

end Sano.Runtime
