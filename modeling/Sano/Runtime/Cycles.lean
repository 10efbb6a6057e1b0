import Sano.Runtime.Heap

namespace Sano.Runtime.Collector

section Sweep

variable {ν : Type} [DecidableEq ν]

/-- What holds in `gc_free_cycles`: the list `kept` refers to nothing that is freed, and of what is freed only the values
whose memory is still referred to are left in `gc_zero_ref_count_list`. -/
structure Sweeping (gcObjType : ν → GcObjType) (outside : ν → Nat) (kept : List ν) (h : Heap ν) (holders : List ν)
    (frames : List (Frame ν)) : Prop extends
    Unwinding outside kept h holders (h.gcZeroRefCountList.filter fun p => (gcObjType p).isValue) frames where
  phase : h.gcPhase = .removeCycles
  survivors : h.gcObjList = kept
  keeping : ∀ p ∈ kept, p ∈ holders
  held : ∀ p ∈ kept, 0 < outside p ∨ ∃ q ∈ kept, p ∈ h.children q
  closed : ∀ q ∈ kept, ∀ c ∈ h.children q, c ∈ kept
  unheld : ∀ p ∈ h.allocated, p ∉ kept → outside p = 0
  typed : ∀ p ∈ holders, ∀ c ∈ h.children p, (gcObjType p).mayRefer (gcObjType c) = true
  unmarked : ∀ p ∈ kept, h.mark p = false
  places : ∀ p ∈ holders, p ∈ kept ∨ p ∈ h.tmpObjList ∨ p ∈ h.gcZeroRefCountList
  tmpIn : ∀ p ∈ h.tmpObjList, p ∉ kept ∧ p ∉ h.gcZeroRefCountList ∧ (p ∈ holders ∨ p ∈ removals frames)
  zeroIn : ∀ p ∈ h.gcZeroRefCountList, p ∉ kept ∧ p ∈ h.allocated
  tmpNodup : h.tmpObjList.Nodup
  zeroNodup : h.gcZeroRefCountList.Nodup

structure Prompt (gcObjType : ν → GcObjType) (h : Heap ν) (holders : List ν) (frames : List (Frame ν)) : Prop where
  alive : ∀ p ∈ holders, (gcObjType p).isValue = false → 0 < h.refCount p
  empty : ∀ p ∈ removals frames, (gcObjType p).isValue = false → h.refCount p = 0

variable {gcObjType : ν → GcObjType} {order : ν → List ν → List ν} {outside : ν → Nat} {kept : List ν} {h : Heap ν}
  {holders : List ν} {frames : List (Frame ν)} {p : ν}

/-- The references among the survivors keep them alive. -/
theorem Sweeping.kept_positive (inv : Sweeping gcObjType outside kept h holders frames) (member : p ∈ kept) :
    0 < h.refCount p := by
  rcases inv.held p member with fromOutside | ⟨q, owner, field⟩
  · exact inv.ledger.positive_of_outside (inv.ledger.holdersIn p (inv.keeping p member)) fromOutside
  · exact inv.ledger.positive_of_field (inv.keeping q owner) field

theorem Sweeping.decrement (inv : Sweeping gcObjType outside kept h holders (.release p :: frames)) :
    Sweeping gcObjType outside kept (h.decrement p) holders frames :=
  { inv.toUnwinding.decrement, inv with }

theorem Sweeping.opens (inv : Sweeping gcObjType outside kept h holders frames) (holder : p ∈ holders) (doomed : p ∉ kept)
    (sameFields : ∀ p list, (order p list).Perm list) :
    Sweeping gcObjType outside kept h (holders.erase p) (freeFrames order h p ++ frames) := by
  have unheld := inv.unheld p (inv.ledger.holdersIn p holder) doomed
  refine { inv.toUnwinding.opens holder unheld sameFields, inv with keeping := ?_, typed := ?_, places := ?_, tmpIn := ?_ }
  · intro q member
    exact (List.mem_erase_of_ne (ne_of_mem_of_not_mem member doomed)).mpr (inv.keeping q member)
  · intro q still
    exact inv.typed q (List.mem_of_mem_erase still)
  · intro q still
    exact inv.places q (List.mem_of_mem_erase still)
  · intro q member
    obtain ⟨notKept, notZero, somewhere⟩ := inv.tmpIn q member
    refine ⟨notKept, notZero, ?_⟩
    rw [freeFrames_removals, inv.holdersNodup.mem_erase_iff, List.mem_cons]
    tauto

theorem Prompt.decrement (prompt : Prompt gcObjType h holders (.release p :: frames))
    (positive : 0 < h.refCount p) (still : (gcObjType p).isValue = false → 0 < (h.decrement p).refCount p) :
    Prompt gcObjType (h.decrement p) holders frames where
  alive q holder direct := by
    by_cases isP : q = p
    · subst isP
      exact still direct
    · rw [h.decrement_other isP]
      exact prompt.alive q holder direct
  empty q removed direct := by
    have notP : q ≠ p := by
      rintro rfl
      have zero := prompt.empty q removed direct
      omega
    rw [h.decrement_other notP]
    exact prompt.empty q removed direct

/-- Where an owed reference leads, unless it leads to a value. -/
theorem Sweeping.owed_direct (inv : Sweeping gcObjType outside kept h holders (.release p :: frames))
    (prompt : Prompt gcObjType h holders (.release p :: frames)) (direct : (gcObjType p).isValue = false) :
    p ∈ holders := by
  have positive : 0 < h.refCount p := inv.ledger.positive_of_owed List.mem_cons_self
  have notRemoved : p ∉ removals frames := fun removed => by
    have zero := prompt.empty p removed direct
    omega
  simpa [notRemoved, direct] using (inv.memory p).mp (inv.ledger.owedIn p List.mem_cons_self)

theorem Prompt.freeNow (prompt : Prompt gcObjType h holders (.release p :: frames)) (distinct : holders.Nodup)
    (zero : (h.decrement p).refCount p = 0) :
    Prompt gcObjType (h.decrement p) (holders.erase p) (freeFrames order (h.decrement p) p ++ frames) where
  alive q still direct := by
    obtain ⟨notP, holder⟩ := distinct.mem_erase_iff.mp still
    rw [h.decrement_other notP]
    exact prompt.alive q holder direct
  empty q removed direct := by
    rw [freeFrames_removals] at removed
    by_cases isP : q = p
    · rwa [isP]
    · have later : q ∈ removals frames := by simpa [isP] using removed
      rw [h.decrement_other isP]
      exact prompt.empty q later direct

theorem Heap.zeroTail_zero (h : Heap ν) (absent : p ∉ h.gcZeroRefCountList) :
    (h.zeroTail p).gcZeroRefCountList = h.gcZeroRefCountList ++ [p] := by
  simp only [Heap.zeroTail, Heap.listDel, List.erase_of_not_mem absent]

theorem Sweeping.moved (inv : Sweeping gcObjType outside kept h holders frames) (doomed : p ∉ kept) :
    h.gcObjList.erase p = kept := by
  rw [inv.survivors]
  exact List.erase_of_not_mem doomed

theorem Sweeping.zeroTail (inv : Sweeping gcObjType outside kept h holders (.remove p :: frames))
    (isValue : (gcObjType p).isValue = true) : Sweeping gcObjType outside kept (h.zeroTail p) holders frames := by
  obtain ⟨notHolder, notRetained⟩ := inv.removing p List.mem_cons_self
  have doomed : p ∉ kept := fun member => notHolder (inv.keeping p member)
  have absent : p ∉ h.gcZeroRefCountList := by simpa [isValue] using notRetained
  have queue := h.zeroTail_zero absent
  have unwinding : Unwinding outside kept (h.zeroTail p) holders
      ((h.zeroTail p).gcZeroRefCountList.filter fun p => (gcObjType p).isValue) frames := by
    refine inv.toUnwinding.zeroTail fun q => ?_
    rw [queue, List.filter_append, List.mem_append]
    simp [isValue]
  refine { unwinding, inv with
    survivors := inv.moved doomed
    places := ?_
    tmpIn := ?_
    zeroIn := ?_
    tmpNodup := inv.tmpNodup.erase p
    zeroNodup := ?_ }
  · intro q holder
    have notP : q ≠ p := ne_of_mem_of_not_mem holder notHolder
    rw [queue, List.mem_append]
    rcases inv.places q holder with survivor | waiting | old
    · exact .inl survivor
    · exact .inr (.inl ((List.mem_erase_of_ne notP).mpr waiting))
    · exact .inr (.inr (.inl old))
  · intro q member
    obtain ⟨notP, waiting⟩ := inv.tmpNodup.mem_erase_iff.mp member
    obtain ⟨notKept, notZero, somewhere⟩ := inv.tmpIn q waiting
    refine ⟨notKept, ?_, ?_⟩
    · rw [queue]
      simp [notZero, notP]
    · simpa [notP] using somewhere
  · intro q member
    rw [queue, List.mem_append, List.mem_singleton] at member
    rcases member with old | rfl
    · exact inv.zeroIn q old
    · exact ⟨doomed, (inv.memory q).mpr (.inr (.inl List.mem_cons_self))⟩
  · rw [queue, ← List.concat_eq_append]
    exact inv.zeroNodup.concat absent

theorem Sweeping.jsFree (inv : Sweeping gcObjType outside kept h holders (.remove p :: frames))
    (zero : h.refCount p = 0) : Sweeping gcObjType outside kept ((h.listDel p).jsFree p) holders frames := by
  obtain ⟨notHolder, notRetained⟩ := inv.removing p List.mem_cons_self
  have doomed : p ∉ kept := fun member => notHolder (inv.keeping p member)
  have unwinding : Unwinding outside kept ((h.listDel p).jsFree p) holders
      ((h.gcZeroRefCountList.erase p).filter fun p => (gcObjType p).isValue) frames := by
    refine (inv.toUnwinding.jsFree zero).retains fun q => ?_
    rw [List.mem_filter, List.mem_filter, inv.zeroNodup.mem_erase_iff]
    rw [List.mem_filter] at notRetained
    by_cases isP : q = p
    · subst isP
      tauto
    · simp [isP]
  refine { unwinding, inv with
    survivors := inv.moved doomed
    unheld := ?_
    places := ?_
    tmpIn := ?_
    zeroIn := ?_
    tmpNodup := inv.tmpNodup.erase p
    zeroNodup := inv.zeroNodup.erase p }
  · intro q member
    exact inv.unheld q (List.mem_of_mem_erase member)
  · intro q holder
    have notP : q ≠ p := ne_of_mem_of_not_mem holder notHolder
    rcases inv.places q holder with survivor | waiting | old
    · exact .inl survivor
    · exact .inr (.inl ((List.mem_erase_of_ne notP).mpr waiting))
    · exact .inr (.inr ((List.mem_erase_of_ne notP).mpr old))
  · intro q member
    obtain ⟨notP, waiting⟩ := inv.tmpNodup.mem_erase_iff.mp member
    obtain ⟨notKept, notZero, somewhere⟩ := inv.tmpIn q waiting
    refine ⟨notKept, fun listed => notZero (List.mem_of_mem_erase listed), ?_⟩
    simpa [notP] using somewhere
  · intro q member
    obtain ⟨notP, old⟩ := inv.zeroNodup.mem_erase_iff.mp member
    obtain ⟨notKept, inMemory⟩ := inv.zeroIn q old
    exact ⟨notKept, (List.mem_erase_of_ne notP).mpr inMemory⟩

/-- The loop leaves what is no value to the values that refer to it. -/
theorem Sweeping.passOver (inv : Sweeping gcObjType outside kept h holders []) (waiting : p ∈ h.tmpObjList)
    (direct : (gcObjType p).isValue = false) : Sweeping gcObjType outside kept (h.zeroTail p) holders [] := by
  obtain ⟨doomed, absent, somewhere⟩ := inv.tmpIn p waiting
  have holder : p ∈ holders := by simpa [removals] using somewhere
  have queue := h.zeroTail_zero absent
  have unwinding : Unwinding outside kept h holders
      ((h.zeroTail p).gcZeroRefCountList.filter fun p => (gcObjType p).isValue) [] := by
    refine inv.toUnwinding.retains fun q => ?_
    rw [queue, List.filter_append, List.mem_append]
    simp [direct]
  refine { unwinding, inv with
    survivors := inv.moved doomed
    places := ?_
    tmpIn := ?_
    zeroIn := ?_
    tmpNodup := inv.tmpNodup.erase p
    zeroNodup := ?_ }
  · intro q still
    rw [queue, List.mem_append, List.mem_singleton]
    change q ∈ kept ∨ q ∈ h.tmpObjList.erase p ∨ _
    rw [inv.tmpNodup.mem_erase_iff]
    have before := inv.places q still
    tauto
  · intro q member
    obtain ⟨notP, old⟩ := inv.tmpNodup.mem_erase_iff.mp member
    obtain ⟨notKept, notZero, there⟩ := inv.tmpIn q old
    refine ⟨notKept, ?_, there⟩
    rw [queue]
    simp [notZero, notP]
  · intro q member
    rw [queue, List.mem_append, List.mem_singleton] at member
    rcases member with old | rfl
    · exact inv.zeroIn q old
    · exact ⟨doomed, inv.ledger.holdersIn q holder⟩
  · rw [queue, ← List.concat_eq_append]
    exact inv.zeroNodup.concat absent

theorem Sweeping.called {frame : Frame ν} (sameFields : ∀ p list, (order p list).Perm list)
    (inv : Sweeping gcObjType outside kept h holders (frame :: frames))
    (prompt : Prompt gcObjType h holders (frame :: frames)) :
    ∃ others, Sweeping gcObjType outside kept (call gcObjType order h frame).1 others
        ((call gcObjType order h frame).2 ++ frames) ∧
      Prompt gcObjType (call gcObjType order h frame).1 others ((call gcObjType order h frame).2 ++ frames) ∧
      ((call gcObjType order h frame).2 ++ frames).length + (call gcObjType order h frame).1.cost others +
          (call gcObjType order h frame).1.tmpObjList.length <
        (frame :: frames).length + h.cost holders + h.tmpObjList.length := by
  rcases inv.inner frame List.mem_cons_self with ⟨p, rfl⟩ | ⟨p, rfl⟩
  · have owedPositive : 0 < h.refCount p := inv.ledger.positive_of_owed List.mem_cons_self
    have phase : (h.decrement p).gcPhase = .removeCycles := inv.phase
    by_cases stays : 0 < (h.decrement p).refCount p ∨ (gcObjType p).isValue = true
    · have next : call gcObjType order h (.release p) = (h.decrement p, []) := by
        simp only [call, release, phase]
        rcases stays with positive | isValue
        · rw [if_pos positive]
        · rw [if_pos isValue, ite_self]
      rw [next]
      refine ⟨holders, inv.decrement, prompt.decrement owedPositive fun direct => ?_, ?_⟩
      · simpa [direct] using stays
      · simp [Heap.cost, Heap.decrement, Heap.assert]
    · obtain ⟨notPositive, notValue⟩ := not_or.mp stays
      have direct : (gcObjType p).isValue = false := Bool.not_eq_true _ ▸ notValue
      have zero : (h.decrement p).refCount p = 0 := by
        have bound := inv.decrement.ledger.nonneg (inv.ledger.owedIn p List.mem_cons_self)
        omega
      have next : call gcObjType order h (.release p) = (h.decrement p, freeFrames order (h.decrement p) p) := by
        simp only [call, release, if_neg notPositive, if_neg notValue]
        rw [zero, decide_eq_true rfl, Heap.assert_true]
      have holder := inv.owed_direct prompt direct
      have doomed : p ∉ kept := fun member => by
        have positive := inv.decrement.kept_positive member
        omega
      rw [next]
      refine ⟨holders.erase p, inv.decrement.opens holder doomed sameFields, prompt.freeNow inv.holdersNodup zero, ?_⟩
      have whole : (h.decrement p).cost holders = h.cost holders := rfl
      have sameTmp : (h.decrement p).tmpObjList.length = h.tmpObjList.length := rfl
      have less := (h.decrement p).cost_erase holder
      rw [List.length_append, freeFrames_length _ _ _ sameFields, List.length_cons]
      dsimp only
      omega
  · have prompt' (h' : Heap ν) (same : h'.refCount = h.refCount) : Prompt gcObjType h' holders frames := by
      refine ⟨fun q => ?_, fun q later => ?_⟩
      · rw [same]
        exact prompt.alive q
      · rw [same]
        exact prompt.empty q (List.mem_cons_of_mem p later)
    have shorter : (h.tmpObjList.erase p).length ≤ h.tmpObjList.length := List.length_erase_le
    by_cases retained : (gcObjType p).isValue = true ∧ h.refCount p ≠ 0
    · have next : call gcObjType order h (.remove p) = (h.zeroTail p, []) := by
        simp [call, remove, inv.phase, retained]
      rw [next]
      refine ⟨holders, inv.zeroTail retained.1, prompt' _ rfl, ?_⟩
      have whole : (h.zeroTail p).cost holders = h.cost holders := rfl
      simp only [List.nil_append, List.length_cons, Heap.zeroTail, Heap.listDel] at whole ⊢
      omega
    · have next : call gcObjType order h (.remove p) = ((h.listDel p).jsFree p, []) := by
        simp only [call, remove, inv.phase, true_and, if_neg retained]
      have zero : h.refCount p = 0 := by
        by_cases isValue : (gcObjType p).isValue = true
        · simpa [isValue] using retained
        · exact prompt.empty p List.mem_cons_self (Bool.not_eq_true _ ▸ isValue)
      rw [next]
      refine ⟨holders, inv.jsFree zero, prompt' _ rfl, ?_⟩
      have whole : ((h.listDel p).jsFree p).cost holders = h.cost holders := rfl
      simp only [List.nil_append, List.length_cons, Heap.jsFree, Heap.assert, Heap.listDel] at whole ⊢
      omega

theorem Sweeping.unwinds (sameFields : ∀ p list, (order p list).Perm list) : (fuel : Nat) → {h : Heap ν} →
    {holders : List ν} → {frames : List (Frame ν)} → Sweeping gcObjType outside kept h holders frames →
    Prompt gcObjType h holders frames → frames.length + h.cost holders + h.tmpObjList.length < fuel →
    ∃ last others, Sweeping gcObjType outside kept last others [] ∧ Prompt gcObjType last others [] ∧
      last.tmpObjList = [] ∧ unwind gcObjType order fuel h (frames ++ [.freeCycles]) =
        some { last with gcPhase := .none }
  | 0, _, _, _, _, _, enough => absurd enough (Nat.not_lt_zero _)
  | fuel + 1, h, holders, [], inv, prompt, enough => by
    rw [List.nil_append, unwind]
    cases waiting : h.tmpObjList with
    | nil =>
      refine ⟨h, holders, inv, prompt, waiting, ?_⟩
      simp [call, freeCycles, waiting, unwind]
    | cons p rest =>
      have inTmp : p ∈ h.tmpObjList := by simp [waiting]
      obtain ⟨doomed, -, somewhere⟩ := inv.tmpIn p inTmp
      have holder : p ∈ holders := by simpa [removals] using somewhere
      by_cases isValue : (gcObjType p).isValue = true
      · have next : call gcObjType order h .freeCycles = (h, freeFrames order h p ++ [.freeCycles]) := by
          simp only [call, freeCycles, waiting, if_pos isValue]
        have less := h.cost_erase holder
        have opened := inv.opens holder doomed sameFields
        have prompted : Prompt gcObjType h (holders.erase p) (freeFrames order h p) := by
          refine ⟨fun q still => prompt.alive q (List.mem_of_mem_erase still), fun q removed direct => ?_⟩
          have isP : q = p := by simpa [freeFrames, removals] using removed
          rw [isP, isValue] at direct
          cases direct
        rw [next]
        rw [List.append_nil] at opened ⊢
        refine Sweeping.unwinds sameFields fuel opened prompted ?_
        rw [freeFrames_length _ _ _ sameFields]
        simp only [List.length_nil] at enough ⊢
        omega
      · have direct : (gcObjType p).isValue = false := Bool.not_eq_true _ ▸ isValue
        have next : call gcObjType order h .freeCycles = (h.zeroTail p, [.freeCycles]) := by
          simp only [call, freeCycles, waiting, if_neg isValue]
        have shorter : (h.tmpObjList.erase p).length + 1 = h.tmpObjList.length :=
          List.length_erase_add_one inTmp
        have whole : (h.zeroTail p).cost holders = h.cost holders := rfl
        rw [next]
        refine Sweeping.unwinds sameFields fuel (inv.passOver inTmp direct) ⟨prompt.alive, prompt.empty⟩ ?_
        simp only [List.length_nil, Heap.zeroTail, Heap.listDel] at enough whole ⊢
        omega
  | fuel + 1, h, holders, frame :: frames, inv, prompt, enough => by
    obtain ⟨others, after, prompted, less⟩ := inv.called sameFields prompt
    rw [List.cons_append, unwind, ← List.append_assoc]
    exact Sweeping.unwinds sameFields fuel after prompted (by omega)

end Sweep

section Collect

variable {ν : Type} [DecidableEq ν] {gcObjType : ν → GcObjType} {order : ν → List ν → List ν} {outside : ν → Nat}
  {kept : List ν} {h : Heap ν} {holders : List ν} {p : ν}

theorem GcObjType.mayRefer_direct {owner target : GcObjType} (may : owner.mayRefer target = true)
    (ownerDirect : owner.isValue = false) (targetDirect : target.isValue = false) :
    owner = .jsContext ∧ target ≠ .jsContext := by
  cases owner <;> cases target <;> simp_all [GcObjType.mayRefer, GcObjType.isValue]

/-- What is left besides the survivors is no value, and only such objects refer to it. -/
theorem Sweeping.owner (inv : Sweeping gcObjType outside kept h holders []) (prompt : Prompt gcObjType h holders [])
    (swept : h.tmpObjList = []) (holder : p ∈ holders) (doomed : p ∉ kept) :
    (gcObjType p).isValue = false ∧
      ∃ q ∈ holders, q ∉ kept ∧ (gcObjType q).mayRefer (gcObjType p) = true := by
  have direct : (gcObjType p).isValue = false := by
    by_contra isValue
    have inZero : p ∈ h.gcZeroRefCountList := by simpa [doomed, swept] using inv.places p holder
    exact inv.retaining p (List.mem_filter.mpr ⟨inZero, by simpa using isValue⟩) holder
  have inMemory := inv.ledger.holdersIn p holder
  obtain ⟨q, owner, field⟩ := inv.ledger.owner inMemory (prompt.alive p holder direct) (inv.unheld p inMemory doomed)
  exact ⟨direct, q, owner, fun survivor => doomed (inv.closed q survivor p field), inv.typed q owner p field⟩

theorem Sweeping.holders_kept (inv : Sweeping gcObjType outside kept h holders [])
    (prompt : Prompt gcObjType h holders []) (swept : h.tmpObjList = []) (holder : p ∈ holders) : p ∈ kept := by
  by_contra doomed
  obtain ⟨direct, q, owner, doomed', may⟩ := inv.owner prompt swept holder doomed
  obtain ⟨direct', r, owner', doomed'', may'⟩ := inv.owner prompt swept owner doomed'
  obtain ⟨direct'', -⟩ := inv.owner prompt swept owner' doomed''
  -- The owner of what is left is a context, and so is the owner of that; but nothing of the kind owns a context.
  exact (GcObjType.mayRefer_direct may' direct'' direct').2 (GcObjType.mayRefer_direct may direct' direct).1

/-- The second loop of `gc_free_cycles`. -/
theorem free_retained : (list : List ν) → {h : Heap ν} → h.failed = false → h.allocated.Nodup → list.Nodup →
    (∀ p ∈ list, p ∈ h.allocated ∧ (gcObjType p).isValue = true) →
    ∃ memory, list.foldl (fun h p => (h.assert (gcObjType p).isValue).jsFree p) h = { h with allocated := memory } ∧
      memory.Nodup ∧ ∀ q, q ∈ memory ↔ q ∈ h.allocated ∧ q ∉ list
  | [], h, _, once, _, _ => ⟨h.allocated, rfl, once, by simp⟩
  | p :: list, h, sound, once, distinct, members => by
    obtain ⟨here, isValue⟩ := members p List.mem_cons_self
    obtain ⟨new, rest⟩ := List.nodup_cons.mp distinct
    have freed : (h.assert (gcObjType p).isValue).jsFree p = { h with allocated := h.allocated.erase p } := by
      rw [isValue, Heap.assert_true, Heap.jsFree, decide_eq_true here, Heap.assert_true]
    have members' : ∀ q ∈ list, q ∈ h.allocated.erase p ∧ (gcObjType q).isValue = true := by
      intro q later
      obtain ⟨inMemory, value⟩ := members q (List.mem_cons_of_mem p later)
      exact ⟨(List.mem_erase_of_ne (ne_of_mem_of_not_mem later new)).mpr inMemory, value⟩
    obtain ⟨memory, done, once', same⟩ :=
      free_retained list (h := { h with allocated := h.allocated.erase p }) sound (once.erase p) rest members'
    refine ⟨memory, ?_, once', fun q => ?_⟩
    · rw [List.foldl_cons, freed, done]
    · rw [same, once.mem_erase_iff, List.mem_cons]
      tauto

theorem Sweeping.counted (inv : Sweeping gcObjType outside kept h holders []) (same : holders.Perm kept) :
    Counted h.children outside h.toState := by
  refine ⟨?_, ?_, ?_, ?_, inv.sound⟩ <;> rw [inv.survivors]
  · exact same.nodup_iff.mp inv.holdersNodup
  · exact inv.closed
  · intro q survivor
    have exact := (inv.ledger.perm same).counts q (inv.ledger.holdersIn q (inv.keeping q survivor))
    simpa [owed] using exact
  · exact inv.unmarked

theorem Sweeping.ends (inv : Sweeping gcObjType outside kept h holders []) (prompt : Prompt gcObjType h holders [])
    (distinct : kept.Nodup) (swept : h.tmpObjList = []) :
    ∃ memory, h.gcZeroRefCountList.foldl (fun h p => (h.assert (gcObjType p).isValue).jsFree p)
        { h with gcPhase := .none } = { h with gcPhase := .none, allocated := memory } ∧
      ({ h with gcPhase := .none, allocated := memory, gcZeroRefCountList := [] } : Heap ν).Sound gcObjType outside := by
  have members (q : ν) : q ∈ holders ↔ q ∈ kept := ⟨inv.holders_kept prompt swept, inv.keeping q⟩
  have same : holders.Perm kept := (List.perm_ext_iff_of_nodup inv.holdersNodup distinct).mpr members
  have values : ∀ q ∈ h.gcZeroRefCountList, q ∈ h.allocated ∧ (gcObjType q).isValue = true := by
    intro q listed
    obtain ⟨doomed, inMemory⟩ := inv.zeroIn q listed
    have notHolder : q ∉ holders := fun holder => doomed ((members q).mp holder)
    have retained := (inv.memory q).mp inMemory
    simp only [removals, List.filterMap_nil, List.not_mem_nil, notHolder, false_or, List.mem_filter] at retained
    exact ⟨inMemory, retained.2⟩
  obtain ⟨memory, freed, once, left⟩ :=
    free_retained h.gcZeroRefCountList (h := { h with gcPhase := .none }) inv.sound inv.once inv.zeroNodup values
  have survivors (q : ν) : q ∈ memory ↔ q ∈ kept := by
    rw [left, inv.memory]
    constructor
    · rintro ⟨holder | removed | retained, notListed⟩
      · exact (members q).mp holder
      · cases removed
      · exact absurd (List.mem_of_mem_filter retained) notListed
    · intro survivor
      exact ⟨.inl (inv.keeping q survivor), fun listed => (inv.zeroIn q listed).1 survivor⟩
  refine ⟨memory, freed, inv.counted same, ?_, ?_, ?_, rfl, swept, rfl⟩
  · intro q survivor
    rw [inv.survivors] at survivor
    exact inv.kept_positive survivor
  · rw [inv.survivors]
    exact (List.perm_ext_iff_of_nodup once distinct).mpr survivors
  · intro q survivor
    rw [inv.survivors] at survivor
    exact inv.typed q (inv.keeping q survivor)

/-- What the two passes before it leave is what `gc_free_cycles` starts from. -/
theorem Heap.Sound.sweeping {after : State ν} (sound : h.Sound gcObjType outside)
    (separated : Separated h.children outside h.toState after) :
    Sweeping gcObjType outside after.gcObjList { h with toState := after, gcPhase := .removeCycles }
      (after.gcObjList ++ after.tmpObjList) [] := by
  have closed := sound.counted.closed
  have distinct : (after.gcObjList ++ after.tmpObjList).Nodup := separated.perm.nodup_iff.mpr sound.counted.nodup
  have ledger : Ledger outside h.children after.refCount h.allocated (after.gcObjList ++ after.tmpObjList) [] := by
    refine { sound.ledger.perm separated.perm.symm with counts := fun q inMemory => ?_ }
    rw [separated.counts q (sound.memory.mem_iff.mp inMemory)]
    exact (sound.ledger.perm separated.perm.symm).counts q inMemory
  have unwinding : Unwinding outside after.gcObjList { h with toState := after, gcPhase := .removeCycles }
      (after.gcObjList ++ after.tmpObjList) (h.gcZeroRefCountList.filter fun p => (gcObjType p).isValue) [] := by
    refine ⟨ledger, fun q => ?_, distinct, List.nodup_nil, by simp [removals], by simp [sound.noZero],
      sound.memory.nodup_iff.mpr sound.counted.nodup, fun q member _ => List.mem_append_left _ member, by simp [Inner],
      separated.sound⟩
    simp only [sound.noZero, removals, List.filterMap_nil, List.filter_nil, List.not_mem_nil, or_false]
    exact (sound.memory.trans separated.perm.symm).mem_iff
  refine { unwinding with
    phase := rfl
    survivors := rfl
    keeping := fun q survivor => List.mem_append_left _ survivor
    held := ?_
    closed := ?_
    unheld := ?_
    typed := ?_
    unmarked := separated.unmarked
    places := ?_
    tmpIn := ?_
    zeroIn := by simp [sound.noZero]
    tmpNodup := (List.nodup_append.mp distinct).2.1
    zeroNodup := by simp [sound.noZero] }
  · intro q survivor
    rcases ((separated.kept q).mp survivor).2.holder with fromOutside | ⟨owner, reached, field⟩
    · exact .inl fromOutside
    · exact .inr ⟨owner, (separated.kept owner).mpr ⟨reached.mem closed, reached⟩, field⟩
  · intro q survivor c field
    obtain ⟨member, reached⟩ := (separated.kept q).mp survivor
    exact (separated.kept c).mpr ⟨closed q member c field, reached.child field⟩
  · intro q inMemory doomed
    by_contra held
    have member := sound.memory.mem_iff.mp inMemory
    exact doomed ((separated.kept q).mpr ⟨member, q, member, Nat.pos_of_ne_zero held, .refl⟩)
  · intro q holder
    exact sound.typed q (separated.perm.mem_iff.mp holder)
  · intro q holder
    rcases List.mem_append.mp holder with survivor | waiting
    · exact .inl survivor
    · exact .inr (.inl waiting)
  · intro q waiting
    refine ⟨fun survivor => ?_, by simp [sound.noZero], .inl (List.mem_append_right _ waiting)⟩
    exact ((separated.cyclic q).mp waiting).2 ((separated.kept q).mp survivor).2

theorem Heap.Sound.prompt {after : State ν} (sound : h.Sound gcObjType outside)
    (separated : Separated h.children outside h.toState after) :
    Prompt gcObjType { h with toState := after, gcPhase := .removeCycles } (after.gcObjList ++ after.tmpObjList) [] where
  alive q holder _ := by
    have member := separated.perm.mem_iff.mp holder
    exact (sound.alive q member).trans_eq (separated.counts q member).symm
  empty q removed := by cases removed

theorem Heap.Sound.runGC (sound : h.Sound gcObjType outside) (sameFields : ∀ p list, (order p list).Perm list) :
    ∃ last, runGC gcObjType order h = some last ∧ last.Sound gcObjType outside ∧ last.children = h.children ∧
      ∀ q, q ∈ last.gcObjList ↔ q ∈ h.gcObjList ∧ Reached h.children outside h.gcObjList q := by
  have separated := gcScan_separated h.toState sound.counted
  generalize scanned : gcScan h.children (gcDecref h.children h.toState) = after at separated
  have distinct : (after.gcObjList ++ after.tmpObjList).Nodup := separated.perm.nodup_iff.mpr sound.counted.nodup
  have enough : ([] : List (Frame ν)).length +
      ({ h with toState := after } : Heap ν).cost (after.gcObjList ++ after.tmpObjList) + after.tmpObjList.length <
        ({ h with toState := after } : Heap ν).cost (after.gcObjList ++ after.tmpObjList) + after.tmpObjList.length + 1 := by
    rw [List.length_nil]
    omega
  obtain ⟨last, holders, inv, prompt, done, unwound⟩ :=
    (sound.sweeping separated).unwinds sameFields _ (sound.prompt separated) enough
  obtain ⟨memory, freed, isSound⟩ := inv.ends prompt (List.nodup_append.mp distinct).1 done
  obtain ⟨children, -⟩ := unwind_shrinks gcObjType order _ unwound
  have ran : Collector.runGC gcObjType order h =
      some { last with gcPhase := .none, allocated := memory, gcZeroRefCountList := [] } := by
    rw [List.nil_append] at unwound
    simp only [Collector.runGC, gcFreeCycles, scanned, unwound, Option.bind_eq_bind, Option.bind_some, freed]
  refine ⟨_, ran, isSound, children, fun q => ?_⟩
  change q ∈ last.gcObjList ↔ _
  rw [inv.survivors, separated.kept]

end Collect

end Sano.Runtime.Collector
