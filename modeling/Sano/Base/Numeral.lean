import Mathlib.Data.List.DropRight
import Mathlib.Data.Nat.Digits.Defs

namespace Numeral

section Reading

def isWhitespace (unit : UInt16) : Bool :=
  let n := unit.toNat
  9 ≤ n && n ≤ 13 || n == 32 || n == 0x85 || n == 0xa0 || n == 0x1680 || 0x2000 ≤ n && n ≤ 0x200a ||
    n == 0x2028 || n == 0x2029 || n == 0x202f || n == 0x205f || n == 0x3000 || n == 0xfeff

def trim (source : List UInt16) : List UInt16 := (source.dropWhile isWhitespace).rdropWhile isWhitespace

def digitValue (unit : UInt16) : Option Nat :=
  let n := unit.toNat
  if 48 ≤ n ∧ n < 58 then some (n - 48)
  else if 97 ≤ n ∧ n < 123 then some (n - 87)
  else if 65 ≤ n ∧ n < 91 then some (n - 55)
  else none

def digit (radix : Nat) (unit : UInt16) : Option Nat := (digitValue unit).filter (· < radix)

def magnitude (radix : Nat) (source : List UInt16) : Option Nat :=
  if source = [] then none
  else (source.mapM (digit radix)).map fun digits => Nat.ofDigits radix digits.reverse

def decimal (negative : Bool) (source : List UInt16) : Option Int := do
  let n ← magnitude 10 source
  if negative then if n ≤ 2 ^ 63 then some (-n) else none
  else if n < 2 ^ 63 then some n else none

/-- Without a sign all 64 bits may be given, and the value is the signed number that has them. -/
def hexadecimal (negative : Bool) (source : List UInt16) : Option Int := do
  let n ← magnitude 16 source
  if negative then if n ≤ 2 ^ 63 then some (-n) else none
  else if n < 2 ^ 64 then some (Int.bmod n (2 ^ 64)) else none

def unsigned (negative : Bool) : List UInt16 → Option Int
  | 0x30 :: mark :: source =>
    if mark = 0x78 ∨ mark = 0x58 then hexadecimal negative source else decimal negative (0x30 :: mark :: source)
  | source => decimal negative source

/-- A text of a 64-bit integer: white space around it, a sign, and decimal digits, or
    hexadecimal ones after `0x`. -/
def parse (source : List UInt16) : Option Int :=
  match trim source with
  | 0x2d :: body => unsigned true body
  | 0x2b :: body => unsigned false body
  | body => unsigned false body

end Reading

section Digits

variable {radix : Nat} {unit : UInt16} {source : List UInt16}

theorem digit_lt {value : Nat} (read : digit radix unit = some value) : value < radix :=
  of_decide_eq_true (Option.filter_eq_some_iff.mp read).2

theorem digit_not_whitespace (read : (digit radix unit).isSome = true) : isWhitespace unit = false := by
  obtain ⟨value, read⟩ := Option.isSome_iff_exists.mp read
  have given := (Option.filter_eq_some_iff.mp read).1
  have range : 48 ≤ unit.toNat ∧ unit.toNat < 123 := by
    simp only [digitValue] at given
    split_ifs at given <;> omega
  simp only [isWhitespace, Bool.or_eq_false_iff, Bool.and_eq_false_iff, decide_eq_false_iff_not, beq_eq_false_iff_ne]
  omega

theorem digits_isSome : (source.mapM (digit radix)).isSome = true ↔ ∀ unit ∈ source, (digit radix unit).isSome = true := by
  induction source with
  | nil => simp
  | cons unit rest ih =>
    rw [List.forall_mem_cons, ← ih, List.mapM_cons]
    cases digit radix unit <;> cases rest.mapM (digit radix) <;> simp

theorem digits_spec {digits : List Nat} (read : source.mapM (digit radix) = some digits) :
    digits.length = source.length ∧ ∀ value ∈ digits, value < radix := by
  induction source generalizing digits with
  | nil =>
    cases read
    simp
  | cons unit rest ih =>
    rw [List.mapM_cons] at read
    obtain ⟨value, first, others⟩ := Option.bind_eq_some_iff.mp read
    obtain ⟨values, later, whole⟩ := Option.bind_eq_some_iff.mp others
    cases whole
    obtain ⟨length, bounds⟩ := ih later
    exact ⟨by simp [length], List.forall_mem_cons.mpr ⟨digit_lt first, bounds⟩⟩

end Digits

section Trimming

theorem rdropWhile_cons {α : Type} {p : α → Bool} {first : α} (kept : p first = false) (rest : List α) :
    (first :: rest).rdropWhile p = first :: rest.rdropWhile p := by
  induction rest using List.reverseRecOn with
  | nil => simp [List.rdropWhile_singleton, kept]
  | append_singleton rest last ih =>
    rw [← List.cons_append, List.rdropWhile_concat, List.rdropWhile_concat, ih]
    split <;> simp

/-- Digits and then white space: the white space is taken away. -/
theorem rdropWhile_digits {radix : Nat} {digits blanks : List UInt16}
    (read : ∀ unit ∈ digits, (digit radix unit).isSome = true) (blank : ∀ unit ∈ blanks, isWhitespace unit = true) :
    (digits ++ blanks).rdropWhile isWhitespace = digits := by
  induction digits with
  | nil => exact List.rdropWhile_eq_nil_iff.mpr blank
  | cons first rest ih =>
    obtain ⟨here, later⟩ := List.forall_mem_cons.mp read
    rw [List.cons_append, rdropWhile_cons (digit_not_whitespace here), ih later]

theorem parse_hexadecimal (source : List UInt16) :
    parse (0x30 :: 0x78 :: source) = hexadecimal false (source.rdropWhile isWhitespace) := by
  have zero : isWhitespace 0x30 = false := by decide
  have mark : isWhitespace 0x78 = false := by decide
  have trimmed : trim (0x30 :: 0x78 :: source) = 0x30 :: 0x78 :: source.rdropWhile isWhitespace := by
    rw [trim, List.dropWhile_cons_of_neg (by simp [zero]), rdropWhile_cons zero, rdropWhile_cons mark]
  rw [parse, trimmed]
  rfl

end Trimming

end Numeral
