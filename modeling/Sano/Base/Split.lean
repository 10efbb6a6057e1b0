import Mathlib.Data.List.Infix

namespace Split

section Borders

variable {α : Type} {sep : List α}

def Unbordered (sep : List α) : Prop := ∀ border ∈ sep.tails, border <+: sep → border = [] ∨ border = sep

/-- Before an unbordered separator, a text without one has none across its end either. -/
theorem Unbordered.clear (unbordered : Unbordered sep) {first : List α} (absent : ¬ sep <:+: first) (rest : List α)
    (start : List α) (ends : start <:+ first) (nonempty : start ≠ []) : ¬ sep <+: start ++ (sep ++ rest) := by
  intro found
  rcases Nat.le_total sep.length start.length with short | long
  · have inside : sep <+: start := List.prefix_of_prefix_length_le found (List.prefix_append _ _) short
    exact absent (inside.isInfix.trans ends.isInfix)
  · obtain ⟨border, cut⟩ : start <+: sep := List.prefix_of_prefix_length_le (List.prefix_append _ _) found long
    have tail : border <+: sep ++ rest := by
      nth_rewrite 1 [← cut] at found
      exact (List.prefix_append_right_inj start).mp found
    have shorter : border.length < sep.length := by
      have := List.length_pos_iff.mpr nonempty
      rw [← cut, List.length_append]
      omega
    have begins : border <+: sep :=
      List.prefix_of_prefix_length_le tail (List.prefix_append _ _) (Nat.le_of_lt shorter)
    have last : border <:+ sep := ⟨start, cut⟩
    rcases unbordered border ((List.mem_tails _ _).mpr last) begins with empty | whole
    · subst empty
      rw [List.append_nil] at cut
      exact absent (cut ▸ ends.isInfix)
    · rw [whole] at shorter
      exact Nat.lt_irrefl _ shorter

end Borders

section Pieces

variable {α : Type} [DecidableEq α]

/-- `skip` items of a separator that has been found are still to be passed over. -/
def scan (sep : List α) : Nat → List α → List α → List (List α)
  | _, piece, [] => [piece]
  | skip + 1, piece, _ :: rest => scan sep skip piece rest
  | 0, piece, item :: rest =>
    if sep <+: item :: rest then piece :: scan sep (sep.length - 1) [] rest else scan sep 0 (piece ++ [item]) rest

def split (sep text : List α) : List (List α) := scan sep 0 [] text

instance (sep : List α) : Decidable (Unbordered sep) := inferInstanceAs (Decidable (∀ border ∈ sep.tails, _))

variable {sep : List α}

theorem scan_skip (skip : Nat) (piece text : List α) : scan sep skip piece text = scan sep 0 piece (text.drop skip) := by
  induction text generalizing skip with
  | nil => simp [scan]
  | cons item rest ih =>
    cases skip with
    | zero => rfl
    | succ skip => exact ih skip

theorem scan_found (nonempty : sep ≠ []) (piece rest : List α) :
    scan sep 0 piece (sep ++ rest) = piece :: split sep rest := by
  cases sep with
  | nil => exact absurd rfl nonempty
  | cons first others =>
    have found : first :: others <+: first :: (others ++ rest) := List.prefix_append (first :: others) rest
    rw [List.cons_append, scan, if_pos found, scan_skip, split]
    simp

/-- A text in which no separator begins is passed over. -/
theorem scan_pass {first : List α} (piece rest : List α)
    (clear : ∀ start, start <:+ first → start ≠ [] → ¬ sep <+: start ++ rest) :
    scan sep 0 piece (first ++ rest) = scan sep 0 (piece ++ first) rest := by
  induction first generalizing piece with
  | nil => simp
  | cons item others ih =>
    have here : ¬ sep <+: item :: (others ++ rest) := clear (item :: others) (List.suffix_refl _) (by simp)
    have later := ih (piece ++ [item]) fun start ends => clear start (ends.trans (List.suffix_cons _ _))
    rw [List.cons_append, scan, if_neg here, later, List.append_assoc, List.singleton_append]

theorem split_join (unbordered : Unbordered sep) (nonempty : sep ≠ []) {first : List α} (absent : ¬ sep <:+: first)
    (rest : List α) : split sep (first ++ sep ++ rest) = first :: split sep rest := by
  rw [split, List.append_assoc, scan_pass [] (sep ++ rest) (unbordered.clear absent rest), scan_found nonempty,
    List.nil_append]

theorem scan_cases (nonempty : sep ≠ []) (piece text : List α) :
    (¬ sep <:+: text ∧ scan sep 0 piece text = [piece ++ text]) ∨
      ∃ first rest, text = first ++ sep ++ rest ∧ scan sep 0 piece text = (piece ++ first) :: split sep rest := by
  induction text generalizing piece with
  | nil => exact .inl ⟨by simpa using nonempty, by simp [scan]⟩
  | cons item others ih =>
    by_cases here : sep <+: item :: others
    · obtain ⟨rest, whole⟩ := here
      refine .inr ⟨[], rest, whole.symm, ?_⟩
      rw [← whole, scan_found nonempty, List.append_nil]
    · rcases ih (piece ++ [item]) with ⟨absent, passed⟩ | ⟨first, rest, rfl, found⟩
      · refine .inl ⟨?_, ?_⟩
        · rw [List.infix_cons_iff]
          exact fun found => found.elim here absent
        · rw [scan, if_neg here, passed, List.append_assoc, List.singleton_append]
      · refine .inr ⟨item :: first, rest, rfl, ?_⟩
        rw [scan, if_neg here, found, List.append_assoc, List.singleton_append]

/-- The first piece is the whole text exactly when the separator is not in it. -/
theorem split_first (nonempty : sep ≠ []) (text : List α) :
    ∃ first rest, split sep text = first :: rest ∧ (first = text ↔ ¬ sep <:+: text) := by
  rcases scan_cases nonempty [] text with ⟨absent, whole⟩ | ⟨first, rest, rfl, found⟩
  · exact ⟨text, [], whole, iff_of_true rfl absent⟩
  · refine ⟨first, split sep rest, found, iff_of_false (fun same => ?_) fun absent => absent ⟨first, rest, rfl⟩⟩
    have length := congrArg List.length same
    have := List.length_pos_iff.mpr nonempty
    simp only [List.length_append] at length
    omega

end Pieces

end Split
