import Mathlib.Data.List.Nodup
import Mathlib.Data.List.Perm.Basic
import Mathlib.Data.Set.Finite.List
import Mathlib.Logic.Function.Basic
import Mathlib.Logic.Relation

/-- The counts of all that is in memory agree with the references to it: those from outside, those in the fields of the
    holders, and those that are owed because their holder has given them up and nobody has counted them down yet. -/
structure Ledger {ν : Type} [DecidableEq ν] (outside : ν → Nat) (fields : ν → List ν) (count : ν → Int)
    (memory holders owed : List ν) : Prop where
  counts : ∀ p ∈ memory, count p = outside p + (holders.flatMap fields).count p + owed.count p
  fieldsIn : ∀ p ∈ holders, ∀ c ∈ fields p, c ∈ memory
  owedIn : ∀ c ∈ owed, c ∈ memory
  holdersIn : ∀ p ∈ holders, p ∈ memory

namespace Ledger

variable {ν : Type} [DecidableEq ν] {outside : ν → Nat} {fields : ν → List ν} {count : ν → Int}
  {memory holders owed : List ν} {p c : ν}

theorem positive_of_outside (ledger : Ledger outside fields count memory holders owed) (member : p ∈ memory)
    (held : 0 < outside p) : 0 < count p := by
  have exact := ledger.counts p member
  omega

theorem positive_of_field (ledger : Ledger outside fields count memory holders owed) (holder : p ∈ holders)
    (field : c ∈ fields p) : 0 < count c := by
  have exact := ledger.counts c (ledger.fieldsIn p holder c field)
  have listed : 0 < (holders.flatMap fields).count c :=
    List.count_pos_iff.mpr (List.mem_flatMap.mpr ⟨p, holder, field⟩)
  omega

theorem positive_of_owed (ledger : Ledger outside fields count memory holders owed) (isOwed : c ∈ owed) :
    0 < count c := by
  have exact := ledger.counts c (ledger.owedIn c isOwed)
  have listed : 0 < owed.count c := List.count_pos_iff.mpr isOwed
  omega

theorem outside_of_zero (ledger : Ledger outside fields count memory holders owed) (member : p ∈ memory)
    (zero : count p = 0) : outside p = 0 := by
  have exact := ledger.counts p member
  omega

theorem nonneg (ledger : Ledger outside fields count memory holders owed) (member : p ∈ memory) : 0 ≤ count p := by
  have exact := ledger.counts p member
  omega

theorem pay (ledger : Ledger outside fields count memory holders (c :: owed)) :
    Ledger outside fields (Function.update count c (count c - 1)) memory holders owed where
  counts p member := by
    have exact := ledger.counts p member
    by_cases isC : p = c
    · subst isC
      rw [Function.update_self]
      rw [List.count_cons_self] at exact
      omega
    · rw [Function.update_of_ne isC, exact, List.count_cons_of_ne (Ne.symm isC)]
  fieldsIn := ledger.fieldsIn
  owedIn d later := ledger.owedIn d (List.mem_cons_of_mem c later)
  holdersIn := ledger.holdersIn

/-- A reference from outside is given up. -/
theorem hand_over (ledger : Ledger outside fields count memory holders owed) (member : p ∈ memory)
    (held : 0 < outside p) :
    Ledger (Function.update outside p (outside p - 1)) fields count memory holders (p :: owed) where
  counts q inMemory := by
    have exact := ledger.counts q inMemory
    by_cases isP : q = p
    · subst isP
      rw [Function.update_self, List.count_cons_self]
      omega
    · rw [Function.update_of_ne isP, exact, List.count_cons_of_ne (Ne.symm isP)]
  fieldsIn := ledger.fieldsIn
  owedIn d isOwed := by
    rcases List.mem_cons.mp isOwed with rfl | old
    · exact member
    · exact ledger.owedIn d old
  holdersIn := ledger.holdersIn

/-- A holder gives up its fields, in any order. -/
theorem open_holder {given : List ν} (ledger : Ledger outside fields count memory holders owed) (holder : p ∈ holders)
    (order : given.Perm (fields p)) : Ledger outside fields count memory (holders.erase p) (given ++ owed) where
  counts q member := by
    have parts : (holders.flatMap fields).count q = given.count q + ((holders.erase p).flatMap fields).count q := by
      rw [((List.perm_cons_erase holder).flatMap_right fields).count_eq q, List.flatMap_cons, List.count_append,
        order.count_eq q]
    have exact := ledger.counts q member
    rw [List.count_append]
    omega
  fieldsIn q still := ledger.fieldsIn q (List.mem_of_mem_erase still)
  owedIn d isOwed := by
    rcases List.mem_append.mp isOwed with new | old
    · exact ledger.fieldsIn p holder d (order.mem_iff.mp new)
    · exact ledger.owedIn d old
  holdersIn q still := ledger.holdersIn q (List.mem_of_mem_erase still)

/-- What nobody refers to can leave the memory. -/
theorem release (ledger : Ledger outside fields count memory holders owed) (zero : count p = 0) (closed : p ∉ holders) :
    Ledger outside fields count (memory.erase p) holders owed where
  counts q member := ledger.counts q (List.mem_of_mem_erase member)
  fieldsIn q holder d field := by
    have positive := ledger.positive_of_field holder field
    refine (List.mem_erase_of_ne ?_).mpr (ledger.fieldsIn q holder d field)
    rintro rfl
    omega
  owedIn d isOwed := by
    have positive := ledger.positive_of_owed isOwed
    refine (List.mem_erase_of_ne ?_).mpr (ledger.owedIn d isOwed)
    rintro rfl
    omega
  holdersIn q holder := by
    refine (List.mem_erase_of_ne ?_).mpr (ledger.holdersIn q holder)
    rintro rfl
    exact closed holder

/-- A reference that is owed is held from outside after all. -/
theorem hold (ledger : Ledger outside fields count memory holders (c :: owed)) :
    Ledger (Function.update outside c (outside c + 1)) fields count memory holders owed where
  counts p member := by
    have exact := ledger.counts p member
    by_cases isC : p = c
    · subst isC
      rw [List.count_cons_self] at exact
      rw [Function.update_self]
      omega
    · rw [Function.update_of_ne isC, exact, List.count_cons_of_ne (Ne.symm isC)]
  fieldsIn := ledger.fieldsIn
  owedIn d later := ledger.owedIn d (List.mem_cons_of_mem c later)
  holdersIn := ledger.holdersIn

theorem lend (ledger : Ledger outside fields count memory holders owed) (member : c ∈ memory) :
    Ledger outside fields (Function.update count c (count c + 1)) memory holders (c :: owed) where
  counts p inMemory := by
    have exact := ledger.counts p inMemory
    by_cases isC : p = c
    · subst isC
      rw [Function.update_self, List.count_cons_self]
      omega
    · rw [Function.update_of_ne isC, exact, List.count_cons_of_ne (Ne.symm isC)]
  fieldsIn := ledger.fieldsIn
  owedIn d isOwed := by
    rcases List.mem_cons.mp isOwed with rfl | old
    · exact member
    · exact ledger.owedIn d old
  holdersIn := ledger.holdersIn

theorem flatMap_update_of_not_mem {list : List ν} {value : List ν} (absent : p ∉ list) :
    list.flatMap (Function.update fields p value) = list.flatMap fields := by
  refine List.flatMap_congr fun q member => ?_
  exact Function.update_of_ne (ne_of_mem_of_not_mem member absent) _ _

theorem count_flatMap_update (fields : ν → List ν) (value : List ν) (distinct : holders.Nodup) (holder : p ∈ holders)
    (q : ν) :
    (holders.flatMap (Function.update fields p value)).count q + (fields p).count q =
      (holders.flatMap fields).count q + value.count q := by
  have rest : p ∉ holders.erase p := distinct.not_mem_erase
  have cut := List.perm_cons_erase holder
  rw [(cut.flatMap_right (Function.update fields p value)).count_eq q, (cut.flatMap_right fields).count_eq q,
    List.flatMap_cons, List.flatMap_cons, List.count_append, List.count_append, Function.update_self,
    flatMap_update_of_not_mem rest]
  omega

/-- A reference that is owed becomes a field. -/
theorem keep (ledger : Ledger outside fields count memory holders (c :: owed)) (distinct : holders.Nodup)
    (holder : p ∈ holders) :
    Ledger outside (Function.update fields p (fields p ++ [c])) count memory holders owed where
  counts q member := by
    have exact := ledger.counts q member
    have change := count_flatMap_update fields (fields p ++ [c]) distinct holder q
    rw [List.count_append] at change
    by_cases isC : q = c
    · subst isC
      rw [List.count_cons_self] at exact
      rw [List.count_singleton_self] at change
      omega
    · rw [List.count_cons_of_ne (Ne.symm isC)] at exact
      have other : [c].count q = 0 := List.count_eq_zero.mpr (by simpa using isC)
      omega
  fieldsIn q stays d field := by
    by_cases isP : q = p
    · subst isP
      rw [Function.update_self, List.mem_append, List.mem_singleton] at field
      rcases field with old | rfl
      · exact ledger.fieldsIn q stays d old
      · exact ledger.owedIn d List.mem_cons_self
    · rw [Function.update_of_ne isP] at field
      exact ledger.fieldsIn q stays d field
  owedIn d later := ledger.owedIn d (List.mem_cons_of_mem c later)
  holdersIn := ledger.holdersIn

theorem take (ledger : Ledger outside fields count memory holders owed) (distinct : holders.Nodup)
    (holder : p ∈ holders) (field : c ∈ fields p) :
    Ledger outside (Function.update fields p ((fields p).erase c)) count memory holders (c :: owed) where
  counts q member := by
    have exact := ledger.counts q member
    have change := count_flatMap_update fields ((fields p).erase c) distinct holder q
    have rest := (List.perm_cons_erase field).count_eq q
    by_cases isC : q = c
    · subst isC
      rw [List.count_cons_self] at rest ⊢
      omega
    · rw [List.count_cons_of_ne (Ne.symm isC)] at rest ⊢
      omega
  fieldsIn q stays d left := by
    by_cases isP : q = p
    · subst isP
      rw [Function.update_self] at left
      exact ledger.fieldsIn q stays d (List.mem_of_mem_erase left)
    · rw [Function.update_of_ne isP] at left
      exact ledger.fieldsIn q stays d left
  owedIn d isOwed := by
    rcases List.mem_cons.mp isOwed with rfl | old
    · exact ledger.fieldsIn p holder d field
    · exact ledger.owedIn d old
  holdersIn := ledger.holdersIn

theorem allocate (ledger : Ledger outside fields count memory holders owed) (new : p ∉ memory) :
    Ledger (Function.update outside p 1) (Function.update fields p []) (Function.update count p 1) (memory ++ [p])
      (holders ++ [p]) owed where
  counts q member := by
    have closed : p ∉ holders := fun holder => new (ledger.holdersIn p holder)
    rw [List.flatMap_append, flatMap_update_of_not_mem closed, List.flatMap_singleton, Function.update_self,
      List.append_nil]
    by_cases isP : q = p
    · subst isP
      have noField : q ∉ holders.flatMap fields := by
        intro field
        obtain ⟨owner, holder, inFields⟩ := List.mem_flatMap.mp field
        exact new (ledger.fieldsIn owner holder q inFields)
      have notOwed : q ∉ owed := fun isOwed => new (ledger.owedIn q isOwed)
      rw [Function.update_self, Function.update_self, List.count_eq_zero.mpr noField, List.count_eq_zero.mpr notOwed]
      rfl
    · have old : q ∈ memory := by simpa [isP] using member
      rw [Function.update_of_ne isP, Function.update_of_ne isP, ledger.counts q old]
  fieldsIn q holder d field := by
    by_cases isP : q = p
    · rw [isP, Function.update_self] at field
      cases field
    · rw [Function.update_of_ne isP] at field
      have old : q ∈ holders := by simpa [isP] using holder
      exact List.mem_append_left _ (ledger.fieldsIn q old d field)
  owedIn d isOwed := List.mem_append_left _ (ledger.owedIn d isOwed)
  holdersIn q holder := by
    rcases List.mem_append.mp holder with old | isP
    · exact List.mem_append_left _ (ledger.holdersIn q old)
    · exact List.mem_append_right _ isP

theorem perm {others : List ν} (ledger : Ledger outside fields count memory holders owed)
    (same : holders.Perm others) : Ledger outside fields count memory others owed where
  counts p member := by
    rw [ledger.counts p member, (same.flatMap_right fields).count_eq p]
  fieldsIn p holder := ledger.fieldsIn p (same.mem_iff.mpr holder)
  owedIn := ledger.owedIn
  holdersIn p holder := ledger.holdersIn p (same.mem_iff.mpr holder)

theorem owner (ledger : Ledger outside fields count memory holders []) (member : p ∈ memory) (positive : 0 < count p)
    (unheld : outside p = 0) : ∃ q ∈ holders, p ∈ fields q := by
  have exact := ledger.counts p member
  have referred : 0 < (holders.flatMap fields).count p := by
    rw [List.count_nil] at exact
    omega
  exact List.mem_flatMap.mp (List.count_pos_iff.mp referred)

/-- What stays counted although nothing from outside leads to it is behind a cycle. -/
theorem cycle_behind (ledger : Ledger outside fields count memory holders []) (positive : ∀ q ∈ memory, 0 < count q)
    (member : p ∈ memory)
    (unreached : ∀ root, 0 < outside root → ¬ Relation.ReflTransGen (fun owner child => child ∈ fields owner) root p) :
    ∃ q ∈ memory, Relation.TransGen (fun owner child => child ∈ fields owner) q q ∧
      Relation.ReflTransGen (fun owner child => child ∈ fields owner) q p := by
  by_contra acyclic
  let Behind := { q // q ∈ memory ∧ Relation.ReflTransGen (fun owner child => child ∈ fields owner) q p }
  let leads (a b : Behind) : Prop := Relation.TransGen (fun owner child => child ∈ fields owner) a.val b.val
  have : Finite Behind := Set.Finite.subset (List.finite_toSet memory) fun q both => both.1
  have : IsTrans Behind leads := ⟨fun _ _ _ first second => first.trans second⟩
  have : Std.Irrefl leads := ⟨fun a around => acyclic ⟨a.val, a.property.1, around, a.property.2⟩⟩
  have founded : WellFounded leads := Finite.wellFounded_of_trans_of_irrefl leads
  -- A first object behind `p` is counted, but neither something before it nor anything from outside refers to it.
  obtain ⟨first, -, minimal⟩ := founded.has_min Set.univ ⟨⟨p, member, .refl⟩, trivial⟩
  obtain ⟨inMemory, before⟩ := first.property
  have unheld : outside first.val = 0 := by
    by_contra held
    exact unreached first.val (Nat.pos_of_ne_zero held) before
  obtain ⟨q, holder, field⟩ := ledger.owner inMemory (positive first.val inMemory) unheld
  exact minimal ⟨q, ledger.holdersIn q holder, before.head field⟩ trivial (.single field)

end Ledger
