import Sano.Runtime.Value

namespace Sano.Runtime

section Model

def stringLenMax : Nat := 2 ^ 30 - 1

/-- A string under construction. What an allocator gives beyond the size asked for is left out. -/
structure StringBuffer where
  text : List UInt16
  size : Nat
  isWideChar : Bool
  narrow : isWideChar = false → text.any isWide = false

namespace StringBuffer

def ofSize (size : Nat) : StringBuffer := ⟨[], size, false, fun _ => rfl⟩

/-- The size becomes an `int`, and a negative one asks for nearly 2^64 bytes. -/
def init (size : Nat) : Option StringBuffer :=
  if Int.bmod size (2 ^ 32) < 0 then none else some (ofSize (Int.bmod size (2 ^ 32)).toNat)

/-- The size of the block with 16 bits a unit. The shift overflows from 2^30 on. -/
def widen (size : Nat) : Option Nat := if 2 ^ 31 ≤ 2 * size then none else some size

def realloc (buffer : StringBuffer) (newLen : Nat) (c : Bool) : Option Nat :=
  if stringLenMax < newLen then none
  else
    let newSize := min (max newLen (Int.bmod (buffer.size * 3) (2 ^ 32) / 2).toNat) stringLenMax
    if !buffer.isWideChar && c then widen newSize else some newSize

def reserve (buffer : StringBuffer) (units : List UInt16) : Option Nat :=
  let newLen := buffer.text.length + units.length
  if buffer.size < newLen then buffer.realloc newLen (units.any isWide)
  else if !buffer.isWideChar && units.any isWide then widen buffer.size
  else some buffer.size

def append (buffer : StringBuffer) (units : List UInt16) (size : Nat) : StringBuffer :=
  ⟨buffer.text ++ units, size, buffer.isWideChar || units.any isWide, by
    intro neither
    rw [Bool.or_eq_false_iff] at neither
    rw [List.any_append, buffer.narrow neither.1, neither.2, Bool.or_false]⟩

/-- `string_buffer_write8`, `string_buffer_write16` and, for one unit, `string_buffer_putc8`
    and `string_buffer_putc16`. -/
def write (buffer : StringBuffer) (units : List UInt16) : Option StringBuffer :=
  (buffer.reserve units).map (buffer.append units)

def putcs (buffer : StringBuffer) (units : List UInt16) : Option StringBuffer :=
  units.foldlM (fun buffer unit => buffer.write [unit]) buffer

def finish (buffer : StringBuffer) : JSString := ⟨buffer.text, buffer.isWideChar, buffer.narrow⟩

end StringBuffer

end Model

section Writing

theorem JSString.ext {left right : JSString} (units : left.units = right.units)
    (wide : left.isWideChar = right.isWideChar) : left = right := by
  cases left
  cases right
  cases units
  cases wide
  rfl

namespace StringBuffer

theorem init_of_lt {size : Nat} (small : size < 2 ^ 31) : init size = some (ofSize size) := by
  have same : Int.bmod size (2 ^ 32) = size := Int.bmod_eq_of_le (by omega) (by omega)
  unfold init
  rw [same, if_neg (Int.not_lt.mpr (Int.natCast_nonneg size)), Int.toNat_natCast]

/-- The size of a buffer is the one asked for up to multiples of 2^32. -/
theorem init_spec {size : Nat} {buffer : StringBuffer} (made : init size = some buffer) :
    buffer.text = [] ∧ buffer.size < 2 ^ 31 ∧ size % 2 ^ 32 = buffer.size := by
  unfold init at made
  split at made
  · cases made
  · rename_i positive
    cases made
    have below := Int.bmod_lt (x := size) (m := 2 ^ 32) (by decide)
    have same := Int.bmod_emod (x := size) (m := 2 ^ 32)
    refine ⟨rfl, ?_, ?_⟩ <;> simp only [ofSize] <;> omega

theorem write_spec {buffer after : StringBuffer} {units : List UInt16} (written : buffer.write units = some after) :
    ∃ size, buffer.reserve units = some size ∧ after = buffer.append units size := by
  obtain ⟨size, sized, done⟩ := Option.map_eq_some_iff.mp written
  exact ⟨size, sized, done.symm⟩

theorem widen_size {size after : Nat} (widened : widen size = some after) : after = size := by
  unfold widen at widened
  split at widened
  · cases widened
  · exact (Option.some.inj widened).symm

theorem realloc_size {buffer : StringBuffer} {newLen after : Nat} {c : Bool}
    (grown : buffer.realloc newLen c = some after) : newLen ≤ after ∧ after ≤ stringLenMax := by
  unfold realloc at grown
  split at grown
  · cases grown
  · rename_i short
    have size : after = min (max newLen (Int.bmod (buffer.size * 3) (2 ^ 32) / 2).toNat) stringLenMax := by
      dsimp only at grown
      split at grown
      · exact widen_size grown
      · exact (Option.some.inj grown).symm
    omega

/-- A text always fits its block, and a block grows to `JS_STRING_LEN_MAX` at most. -/
theorem reserve_size {buffer : StringBuffer} {units : List UInt16} {size : Nat}
    (sized : buffer.reserve units = some size) :
    buffer.text.length + units.length ≤ size ∧ size ≤ max buffer.size stringLenMax := by
  unfold reserve at sized
  dsimp only at sized
  split at sized
  · have := realloc_size sized
    omega
  · split at sized
    · have := widen_size sized
      omega
    · cases sized
      omega

/-- Within the size only the widening can fail. -/
theorem reserve_of_room {buffer : StringBuffer} {units : List UInt16}
    (room : buffer.text.length + units.length ≤ buffer.size) (narrow : units.any isWide = true → 2 * buffer.size < 2 ^ 31) :
    buffer.reserve units = some buffer.size := by
  unfold reserve
  rw [if_neg (by omega)]
  split
  · rename_i wide
    have small := narrow (Bool.and_eq_true_iff.mp wide).2
    rw [widen, if_neg (by omega)]
  · rfl

theorem reserve_wide {buffer : StringBuffer} {units : List UInt16} (plain : buffer.isWideChar = false)
    (wide : units.any isWide = true) (room : buffer.text.length + units.length ≤ buffer.size)
    (large : 2 ^ 31 ≤ 2 * buffer.size) : buffer.reserve units = none := by
  unfold reserve
  rw [if_neg (by omega), plain, wide, widen, if_pos large]
  rfl

variable (buffer : StringBuffer) (units : List UInt16)

theorem putcs_cons (unit : UInt16) (rest : List UInt16) :
    buffer.putcs (unit :: rest) = (buffer.write [unit]).bind fun first => first.putcs rest := rfl

theorem putcs_of_room (room : buffer.text.length + units.length ≤ buffer.size)
    (narrow : units.any isWide = true → 2 * buffer.size < 2 ^ 31) :
    ∃ after, buffer.putcs units = some after ∧
      after.text = buffer.text ++ units ∧ after.isWideChar = (buffer.isWideChar || units.any isWide) := by
  induction units generalizing buffer with
  | nil => exact ⟨buffer, rfl, by simp, by simp⟩
  | cons unit rest ih =>
    rw [List.length_cons] at room
    rw [List.any_cons] at narrow
    have sized : buffer.reserve [unit] = some buffer.size :=
      reserve_of_room (by rw [List.length_singleton]; omega) fun wide => narrow (by simpa using .inl (by simpa using wide))
    obtain ⟨after, later, text, flag⟩ := ih (buffer.append [unit] buffer.size)
      (by simp only [append, List.length_append, List.length_singleton]; omega) fun more => narrow (by simp [more])
    refine ⟨after, ?_, by simp [text, append], ?_⟩
    · rw [putcs_cons, write, sized]
      exact later
    · simp [flag, append, Bool.or_assoc]

theorem putcs_wide {units : List UInt16} {buffer : StringBuffer} (plain : buffer.isWideChar = false)
    (wide : units.any isWide = true) (room : buffer.text.length + units.length ≤ buffer.size)
    (large : 2 ^ 31 ≤ 2 * buffer.size) : buffer.putcs units = none := by
  induction units generalizing buffer with
  | nil => simp at wide
  | cons unit rest ih =>
    rw [List.length_cons] at room
    have space : buffer.text.length + [unit].length ≤ buffer.size := by rw [List.length_singleton]; omega
    rw [putcs_cons, write]
    by_cases here : isWide unit = true
    · rw [reserve_wide plain (by simpa using here) space large]
      rfl
    · have other : isWide unit = false := by simpa using here
      rw [reserve_of_room space (by simp [other])]
      refine ih (by simp [append, plain, other]) (by simpa [other] using wide) ?_ large
      simp only [append, List.length_append, List.length_singleton]
      omega

theorem putcs_size {units : List UInt16} {buffer after : StringBuffer} (written : buffer.putcs units = some after)
    (room : buffer.text.length ≤ buffer.size) :
    buffer.text.length + units.length ≤ max buffer.size stringLenMax := by
  induction units generalizing buffer with
  | nil => simpa using Or.inl room
  | cons unit rest ih =>
    obtain ⟨first, one, more⟩ := Option.bind_eq_some_iff.mp written
    obtain ⟨size, sized, rfl⟩ := write_spec one
    obtain ⟨inside, bound⟩ := reserve_size sized
    have later := ih more (by simpa [append] using inside)
    simp only [append, List.length_append, List.length_singleton] at later
    rw [List.length_cons]
    omega

theorem widen_short {size : Nat} (short : size ≤ stringLenMax) : widen size = some size := by
  unfold stringLenMax at short
  exact if_neg (by omega)

variable {units}

/-- A buffer that starts empty refuses exactly the texts that are too long. -/
theorem reserve_grown (units : List UInt16) {buffer : StringBuffer} (short : buffer.size ≤ stringLenMax) :
    if stringLenMax < buffer.text.length + units.length then buffer.reserve units = none
    else ∃ size, buffer.reserve units = some size ∧ size ≤ stringLenMax ∧ buffer.text.length + units.length ≤ size := by
  split
  · rename_i long
    rw [reserve, if_pos (by omega), realloc, if_pos long]
  · rename_i fits
    have sized : ∃ size, buffer.reserve units = some size := by
      unfold reserve realloc
      dsimp only
      rw [if_neg fits]
      split
      · split
        · exact ⟨_, widen_short (by omega)⟩
        · exact ⟨_, rfl⟩
      · split
        · exact ⟨_, widen_short short⟩
        · exact ⟨_, rfl⟩
    obtain ⟨size, sized⟩ := sized
    have bounds := reserve_size sized
    exact ⟨size, sized, by omega, bounds.1⟩

theorem write_empty (units : List UInt16) :
    ((ofSize 0).write units).map finish = if stringLenMax < units.length then none else some (.ofUnits units) := by
  have grown := reserve_grown units (show (ofSize 0).size ≤ stringLenMax from Nat.zero_le _)
  rw [show (ofSize 0).text.length + units.length = units.length from Nat.zero_add _] at grown
  rw [write]
  split
  · rename_i long
    rw [if_pos long] at grown
    rw [grown]
    rfl
  · rename_i short
    rw [if_neg short] at grown
    obtain ⟨size, sized, _⟩ := grown
    rw [sized]
    rfl

def writes (buffer : StringBuffer) (parts : List (List UInt16)) : Option StringBuffer :=
  parts.foldlM (fun buffer part => buffer.write part) buffer

theorem writes_grown {buffer : StringBuffer} (parts : List (List UInt16)) (short : buffer.size ≤ stringLenMax)
    (room : buffer.text.length ≤ buffer.size) :
    (buffer.writes parts).map finish =
      if stringLenMax < buffer.text.length + parts.flatten.length then none
      else some (buffer.append parts.flatten buffer.size).finish := by
  induction parts generalizing buffer with
  | nil =>
    rw [if_neg (by simp; omega)]
    exact congrArg some (JSString.ext (by simp [append, finish]) (by simp [append, finish]))
  | cons part rest ih =>
    have grown := reserve_grown part short
    have step : (buffer.writes (part :: rest)).map finish =
        (buffer.reserve part).bind fun size => ((buffer.append part size).writes rest).map finish := by
      rw [writes, List.foldlM_cons, write]
      cases buffer.reserve part <;> rfl
    rw [step, List.flatten_cons, List.length_append]
    by_cases long : stringLenMax < buffer.text.length + part.length
    · rw [if_pos long] at grown
      rw [grown, if_pos (by omega)]
      rfl
    · rw [if_neg long] at grown
      obtain ⟨size, sized, bound, inside⟩ := grown
      rw [sized, Option.bind_some, ih bound (by simpa [append] using inside)]
      simp only [append, List.length_append, Nat.add_assoc]
      split
      · rfl
      · exact congrArg some (JSString.ext (by simp [finish]) (by simp [finish, Bool.or_assoc]))

/-- A text that is written part by part ends as one that is written at once. -/
theorem writes_eq_write (parts : List (List UInt16)) :
    ((ofSize 0).writes parts).map finish = ((ofSize 0).write parts.flatten).map finish := by
  rw [writes_grown parts (Nat.zero_le _) (Nat.zero_le _), write_empty]
  have length : (ofSize 0).text.length = 0 := rfl
  rw [length, Nat.zero_add]
  rfl

end StringBuffer

end Writing

end Sano.Runtime
