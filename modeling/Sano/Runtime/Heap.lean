import Sano.Base.Ledger
import Sano.Runtime.Collector

namespace Sano.Runtime.Collector

inductive GcObjType where
  | jsObject
  | functionBytecode
  | shape
  | varRef
  | asyncFunction
  | jsContext
deriving DecidableEq

def GcObjType.isValue : GcObjType → Bool
  | .jsObject | .functionBytecode => true
  | _ => false

inductive GcPhase where
  | none
  | decref
  | removeCycles
deriving DecidableEq

/-- `allocated` is the memory that `js_free_rt` has not given back; `failed` is also set where other memory is used. -/
structure Heap (ν : Type) extends State ν where
  children : ν → List ν
  gcZeroRefCountList : List ν
  gcPhase : GcPhase
  allocated : List ν

/-- What is left to do in the calls that free objects, the innermost first. -/
inductive Frame (ν : Type) where
  | release (p : ν)
  | remove (p : ν)
  | freeZeroRefcount
  | freeCycles

section Model

variable {ν : Type}

def Heap.assert (h : Heap ν) (holds : Bool) : Heap ν := { h with failed := h.failed || !holds }

@[simp] theorem Heap.assert_true (h : Heap ν) : h.assert true = h := by
  simp [Heap.assert]

variable [DecidableEq ν]

def Heap.listDel (h : Heap ν) (p : ν) : Heap ν :=
  { h with
    gcObjList := h.gcObjList.erase p
    tmpObjList := h.tmpObjList.erase p
    gcZeroRefCountList := h.gcZeroRefCountList.erase p }

def Heap.zeroTail (h : Heap ν) (p : ν) : Heap ν :=
  { h.listDel p with gcZeroRefCountList := (h.listDel p).gcZeroRefCountList ++ [p] }

def Heap.zeroHead (h : Heap ν) (p : ν) : Heap ν :=
  { h.listDel p with gcZeroRefCountList := p :: (h.listDel p).gcZeroRefCountList }

def Heap.jsFree (h : Heap ν) (p : ν) : Heap ν :=
  { h.assert (p ∈ h.allocated) with allocated := h.allocated.erase p }

def Heap.decrement (h : Heap ν) (p : ν) : Heap ν :=
  { h.assert (p ∈ h.allocated) with refCount := Function.update h.refCount p (h.refCount p - 1) }

-- `order` is the order in which the free function of an object's type releases its fields.
variable (gcObjType : ν → GcObjType) (order : ν → List ν → List ν)

/-- The body of a free function: the fields, then `remove_gc_object` and what follows it. The frame of a suspended
function is taken to have no variables that closures hold open, of which `close_var_refs` would make objects here,
and no object to be the key of a `WeakMap`. -/
def freeFrames (h : Heap ν) (p : ν) : List (Frame ν) := (order p (h.children p)).map .release ++ [.remove p]

/-- `JS_FreeValueRT` for the types of values, and the counting of `js_free_shape`, `free_var_ref`,
`js_async_function_free` and `JS_FreeContext` for the others. -/
def release (h : Heap ν) (p : ν) : Heap ν × List (Frame ν) :=
  let h := h.decrement p
  if 0 < h.refCount p then
    (h, [])
  else if (gcObjType p).isValue then
    match h.gcPhase with
    | .removeCycles => (h, [])
    | .decref => (h.zeroHead p, [])
    | .none => ({ h.zeroHead p with gcPhase := .decref }, [.freeZeroRefcount])
  else
    (h.assert (h.refCount p = 0), freeFrames order h p)

def remove (h : Heap ν) (p : ν) : Heap ν :=
  if (gcObjType p).isValue ∧ h.gcPhase = .removeCycles ∧ h.refCount p ≠ 0 then h.zeroTail p
  else (h.listDel p).jsFree p

def freeZeroRefcount (h : Heap ν) : Heap ν × List (Frame ν) :=
  match h.gcZeroRefCountList with
  | [] => ({ h with gcPhase := .none }, [])
  | p :: _ => (h.assert (h.refCount p = 0 ∧ (gcObjType p).isValue), freeFrames order h p ++ [.freeZeroRefcount])

def freeCycles (h : Heap ν) : Heap ν × List (Frame ν) :=
  match h.tmpObjList with
  | [] => ({ h with gcPhase := .none }, [])
  | p :: _ =>
    if (gcObjType p).isValue then (h, freeFrames order h p ++ [.freeCycles])
    else (h.zeroTail p, [.freeCycles])

def call (h : Heap ν) : Frame ν → Heap ν × List (Frame ν)
  | .release p => release gcObjType order h p
  | .remove p => (remove gcObjType h p, [])
  | .freeZeroRefcount => freeZeroRefcount gcObjType order h
  | .freeCycles => freeCycles gcObjType order h

def unwind : Nat → Heap ν → List (Frame ν) → Option (Heap ν)
  | _, h, [] => some h
  | 0, _, _ :: _ => none
  | fuel + 1, h, frame :: rest =>
    unwind fuel (call gcObjType order h frame).1 ((call gcObjType order h frame).2 ++ rest)

def cost (children : ν → List ν) : List ν → Nat
  | [] => 0
  | p :: rest => (children p).length + 2 + cost children rest

def Heap.cost (h : Heap ν) (objects : List ν) : Nat := Collector.cost h.children objects

def freeValue (h : Heap ν) (p : ν) : Option (Heap ν) :=
  unwind gcObjType order (h.cost h.gcObjList + 2) h [.release p]

def gcFreeCycles (h : Heap ν) : Option (Heap ν) := do
  let h ← unwind gcObjType order (h.cost (h.gcObjList ++ h.tmpObjList) + h.tmpObjList.length + 1)
    { h with gcPhase := .removeCycles } [.freeCycles]
  let h := h.gcZeroRefCountList.foldl (fun h p => (h.assert (gcObjType p).isValue).jsFree p) h
  some { h with gcZeroRefCountList := [] }

def runGC (h : Heap ν) : Option (Heap ν) :=
  gcFreeCycles gcObjType order { h with toState := gcScan h.children (gcDecref h.children h.toState) }

end Model

section Frames

variable {ν : Type}

def owed (frames : List (Frame ν)) : List ν := frames.filterMap fun
  | .release p => some p
  | _ => none

def removals (frames : List (Frame ν)) : List ν := frames.filterMap fun
  | .remove p => some p
  | _ => none

@[simp] theorem owed_release (p : ν) (rest : List (Frame ν)) : owed (.release p :: rest) = p :: owed rest := rfl

@[simp] theorem owed_remove (p : ν) (rest : List (Frame ν)) : owed (.remove p :: rest) = owed rest := rfl

@[simp] theorem removals_release (p : ν) (rest : List (Frame ν)) : removals (.release p :: rest) = removals rest := rfl

@[simp] theorem removals_remove (p : ν) (rest : List (Frame ν)) : removals (.remove p :: rest) = p :: removals rest := rfl

def Inner (frames : List (Frame ν)) : Prop := ∀ frame ∈ frames, (∃ p, frame = .release p) ∨ ∃ p, frame = .remove p

variable (order : ν → List ν → List ν) (h : Heap ν) (p : ν) (rest : List (Frame ν))

theorem freeFrames_owed : owed (freeFrames order h p ++ rest) = order p (h.children p) ++ owed rest := by
  have fields (list : List ν) : (list.map (Frame.release (ν := ν))).filterMap (fun
      | .release p => some p
      | _ => none) = list := by
    induction list <;> simp_all
  simp [owed, freeFrames, fields]

theorem freeFrames_removals : removals (freeFrames order h p ++ rest) = p :: removals rest := by
  simp [removals, freeFrames]

theorem freeFrames_length (sameLength : ∀ p list, (order p list).Perm list) :
    (freeFrames order h p).length = (h.children p).length + 1 := by
  simp [freeFrames, (sameLength p (h.children p)).length_eq]

variable {rest} in
theorem freeFrames_inner (inner : Inner rest) : Inner (freeFrames order h p ++ rest) := by
  intro frame member
  simp only [freeFrames, List.mem_append, List.mem_map, List.mem_singleton] at member
  rcases member with (⟨q, -, rfl⟩ | rfl) | later
  · exact .inl ⟨q, rfl⟩
  · exact .inr ⟨p, rfl⟩
  · exact inner frame later

end Frames

section Unwinding

variable {ν : Type} [DecidableEq ν]

/-- The holders have their fields, the objects in `removals` are giving them up, and the retained ones have. Of the
`objects` at the start, those with references from outside are holders. -/
structure Unwinding (outside : ν → Nat) (objects : List ν) (h : Heap ν) (holders retained : List ν)
    (frames : List (Frame ν)) : Prop where
  ledger : Ledger outside h.children h.refCount h.allocated holders (owed frames)
  memory : ∀ p, p ∈ h.allocated ↔ p ∈ holders ∨ p ∈ removals frames ∨ p ∈ retained
  holdersNodup : holders.Nodup
  removalsNodup : (removals frames).Nodup
  removing : ∀ p ∈ removals frames, p ∉ holders ∧ p ∉ retained
  retaining : ∀ p ∈ retained, p ∉ holders
  once : h.allocated.Nodup
  rooted : ∀ p ∈ objects, 0 < outside p → p ∈ holders
  inner : Inner frames
  sound : h.failed = false

variable {outside : ν → Nat} {objects : List ν} {h : Heap ν} {holders retained : List ν} {frames : List (Frame ν)}
  {p q : ν} {order : ν → List ν → List ν}

theorem Heap.decrement_other (h : Heap ν) (other : q ≠ p) : (h.decrement p).refCount q = h.refCount q :=
  Function.update_of_ne other _ _

theorem Unwinding.decrement (inv : Unwinding outside objects h holders retained (.release p :: frames)) :
    Unwinding outside objects (h.decrement p) holders retained frames where
  ledger := inv.ledger.pay
  memory := inv.memory
  holdersNodup := inv.holdersNodup
  removalsNodup := inv.removalsNodup
  removing := inv.removing
  retaining := inv.retaining
  once := inv.once
  rooted := inv.rooted
  inner frame later := inv.inner frame (List.mem_cons_of_mem _ later)
  sound := by
    have member : p ∈ h.allocated := inv.ledger.owedIn p List.mem_cons_self
    simp [Heap.decrement, Heap.assert, inv.sound, member]

theorem Unwinding.opens (inv : Unwinding outside objects h holders retained frames) (holder : p ∈ holders)
    (unheld : outside p = 0) (sameFields : ∀ p list, (order p list).Perm list) :
    Unwinding outside objects h (holders.erase p) retained (freeFrames order h p ++ frames) where
  ledger := by
    rw [freeFrames_owed]
    exact inv.ledger.open_holder holder (sameFields p _)
  memory q := by
    rw [inv.memory, freeFrames_removals, inv.holdersNodup.mem_erase_iff, List.mem_cons]
    by_cases isP : q = p <;> simp [isP, holder]
  holdersNodup := inv.holdersNodup.erase p
  removalsNodup := by
    rw [freeFrames_removals]
    exact List.nodup_cons.mpr ⟨fun early => (inv.removing p early).1 holder, inv.removalsNodup⟩
  removing q member := by
    rw [freeFrames_removals] at member
    rcases List.mem_cons.mp member with rfl | later
    · exact ⟨inv.holdersNodup.not_mem_erase, fun kept => inv.retaining q kept holder⟩
    · exact ⟨fun still => (inv.removing q later).1 (List.mem_of_mem_erase still), (inv.removing q later).2⟩
  retaining q kept := fun still => inv.retaining q kept (List.mem_of_mem_erase still)
  once := inv.once
  rooted q member held := by
    refine (List.mem_erase_of_ne ?_).mpr (inv.rooted q member held)
    rintro rfl
    omega
  inner := freeFrames_inner order h p inv.inner
  sound := inv.sound

theorem Unwinding.jsFree (inv : Unwinding outside objects h holders retained (.remove p :: frames)) (zero : h.refCount p = 0) :
    Unwinding outside objects ((h.listDel p).jsFree p) holders retained frames where
  ledger := inv.ledger.release zero (inv.removing p List.mem_cons_self).1
  memory q := by
    have leaving := inv.removing p List.mem_cons_self
    have apart : p ∉ removals frames := (List.nodup_cons.mp inv.removalsNodup).1
    simp only [Heap.jsFree, Heap.listDel, inv.once.mem_erase_iff, inv.memory, removals_remove, List.mem_cons]
    by_cases isP : q = p
    · simp [isP, leaving, apart]
    · simp [isP]
  holdersNodup := inv.holdersNodup
  removalsNodup := (List.nodup_cons.mp inv.removalsNodup).2
  removing q later := inv.removing q (List.mem_cons_of_mem p later)
  retaining := inv.retaining
  once := inv.once.erase p
  rooted := inv.rooted
  inner frame later := inv.inner frame (List.mem_cons_of_mem _ later)
  sound := by
    have member : p ∈ h.allocated := (inv.memory p).mpr (.inr (.inl List.mem_cons_self))
    simp [Heap.jsFree, Heap.assert, Heap.listDel, inv.sound, member]

theorem Unwinding.retains {retained' : List ν} (inv : Unwinding outside objects h holders retained frames)
    (same : ∀ q, q ∈ retained' ↔ q ∈ retained) : Unwinding outside objects h holders retained' frames where
  ledger := inv.ledger
  memory q := by rw [inv.memory, same]
  holdersNodup := inv.holdersNodup
  removalsNodup := inv.removalsNodup
  removing q member := ⟨(inv.removing q member).1, fun kept => (inv.removing q member).2 ((same q).mp kept)⟩
  retaining q kept := inv.retaining q ((same q).mp kept)
  once := inv.once
  rooted := inv.rooted
  inner := inv.inner
  sound := inv.sound

/-- Memory that is still referred to stays until all references to it are given up. -/
theorem Unwinding.zeroTail {retained' : List ν}
    (inv : Unwinding outside objects h holders retained (.remove p :: frames))
    (one : ∀ q, q ∈ retained' ↔ q ∈ retained ∨ q = p) :
    Unwinding outside objects (h.zeroTail p) holders retained' frames where
  ledger := inv.ledger
  memory q := by
    have before : q ∈ h.allocated ↔ _ := inv.memory q
    rw [removals_remove, List.mem_cons] at before
    change q ∈ h.allocated ↔ _
    rw [before, one]
    tauto
  holdersNodup := inv.holdersNodup
  removalsNodup := (List.nodup_cons.mp inv.removalsNodup).2
  removing q later := by
    have before := inv.removing q (List.mem_cons_of_mem p later)
    refine ⟨before.1, fun kept => ?_⟩
    rcases (one q).mp kept with old | rfl
    · exact before.2 old
    · exact (List.nodup_cons.mp inv.removalsNodup).1 later
  retaining q kept := by
    rcases (one q).mp kept with old | rfl
    · exact inv.retaining q old
    · exact (inv.removing q List.mem_cons_self).1
  once := inv.once
  rooted := inv.rooted
  inner frame later := inv.inner frame (List.mem_cons_of_mem _ later)
  sound := inv.sound

end Unwinding

section Drain

variable {ν : Type} [DecidableEq ν]

/-- What holds in `free_zero_refcount`: all that is in the list is dead, and what is not is alive or being freed. -/
structure Draining (gcObjType : ν → GcObjType) (outside : ν → Nat) (objects : List ν) (h : Heap ν) (holders : List ν)
    (frames : List (Frame ν)) : Prop extends Unwinding outside objects h holders [] frames where
  phase : h.gcPhase = .decref
  noTmp : h.tmpObjList = []
  empty : ∀ p ∈ removals frames, h.refCount p = 0
  dead : ∀ p ∈ h.gcZeroRefCountList, p ∈ h.allocated ∧ h.refCount p = 0 ∧ (gcObjType p).isValue = true
  alive : ∀ p ∈ holders, p ∉ h.gcZeroRefCountList → p ∈ h.gcObjList ∧ 0 < h.refCount p
  gcIn : ∀ p ∈ h.gcObjList, p ∈ h.allocated ∧ p ∉ h.gcZeroRefCountList
  gcNodup : h.gcObjList.Nodup
  zeroNodup : h.gcZeroRefCountList.Nodup
  unmarked : ∀ p ∈ h.gcObjList, h.mark p = false

variable {gcObjType : ν → GcObjType} {order : ν → List ν → List ν} {outside : ν → Nat} {objects : List ν} {h : Heap ν}
  {holders : List ν} {frames : List (Frame ν)} {p : ν}

/-- A reference that is owed leads to a live object. -/
theorem Draining.owed_alive (inv : Draining gcObjType outside objects h holders (.release p :: frames)) :
    p ∈ holders ∧ p ∉ h.gcZeroRefCountList ∧ p ∈ h.gcObjList ∧ p ∉ removals frames := by
  have positive : 0 < h.refCount p := inv.ledger.positive_of_owed List.mem_cons_self
  have notRemoved : p ∉ removals frames := fun removed => by
    have zero := inv.empty p removed
    omega
  have notDead : p ∉ h.gcZeroRefCountList := fun dead => by
    have zero := (inv.dead p dead).2.1
    omega
  have holder : p ∈ holders := by
    have member := (inv.memory p).mp (inv.ledger.owedIn p List.mem_cons_self)
    simpa [notRemoved] using member
  exact ⟨holder, notDead, (inv.alive p holder notDead).1, notRemoved⟩

theorem Draining.decrement (inv : Draining gcObjType outside objects h holders (.release p :: frames))
    (positive : 0 < (h.decrement p).refCount p) : Draining gcObjType outside objects (h.decrement p) holders frames := by
  obtain ⟨-, notDead, -, notRemoved⟩ := inv.owed_alive
  refine ⟨inv.toUnwinding.decrement, inv.phase, inv.noTmp, ?_, ?_, ?_, inv.gcIn, inv.gcNodup, inv.zeroNodup,
    inv.unmarked⟩
  · intro q removed
    rw [h.decrement_other (ne_of_mem_of_not_mem removed notRemoved)]
    exact inv.empty q removed
  · intro q isDead
    rw [h.decrement_other (ne_of_mem_of_not_mem isDead notDead)]
    exact inv.dead q isDead
  · intro q holder listed
    by_cases isP : q = p
    · subst isP
      exact ⟨(inv.alive q holder listed).1, positive⟩
    · rw [h.decrement_other isP]
      exact inv.alive q holder listed

theorem Draining.zeroHead (inv : Draining gcObjType outside objects h holders (.release p :: frames))
    (zero : (h.decrement p).refCount p = 0) (isValue : (gcObjType p).isValue = true) :
    Draining gcObjType outside objects ((h.decrement p).zeroHead p) holders frames := by
  obtain ⟨holder, notDead, inGc, notRemoved⟩ := inv.owed_alive
  have queue : ((h.decrement p).zeroHead p).gcZeroRefCountList = p :: h.gcZeroRefCountList := by
    simp [Heap.zeroHead, Heap.listDel, Heap.decrement, Heap.assert, List.erase_of_not_mem notDead]
  refine ⟨{ inv.toUnwinding.decrement with }, inv.phase, ?_, ?_, ?_, ?_, ?_, inv.gcNodup.erase p, ?_, ?_⟩
  · simp [Heap.zeroHead, Heap.listDel, Heap.decrement, Heap.assert, inv.noTmp]
  · intro q removed
    exact (h.decrement_other (ne_of_mem_of_not_mem removed notRemoved)).trans (inv.empty q removed)
  · intro q member
    rw [queue] at member
    rcases List.mem_cons.mp member with rfl | old
    · exact ⟨inv.ledger.holdersIn q holder, zero, isValue⟩
    · obtain ⟨inMemory, rest⟩ := inv.dead q old
      exact ⟨inMemory, (h.decrement_other (ne_of_mem_of_not_mem old notDead)).trans rest.1, rest.2⟩
  · intro q stillHolder listed
    rw [queue, List.mem_cons, not_or] at listed
    obtain ⟨inList, positive⟩ := inv.alive q stillHolder listed.2
    exact ⟨(List.mem_erase_of_ne listed.1).mpr inList, positive.trans_eq (h.decrement_other listed.1).symm⟩
  · intro q member
    rw [queue, List.mem_cons, not_or]
    have still := inv.gcNodup.mem_erase_iff.mp member
    exact ⟨(inv.gcIn q still.2).1, still.1, (inv.gcIn q still.2).2⟩
  · rw [queue]
    exact List.nodup_cons.mpr ⟨notDead, inv.zeroNodup⟩
  · intro q member
    exact inv.unmarked q (List.mem_of_mem_erase member)

theorem Draining.opens (inv : Draining gcObjType outside objects h holders frames) (holder : p ∈ holders)
    (zero : h.refCount p = 0) (sameFields : ∀ p list, (order p list).Perm list) :
    Draining gcObjType outside objects h (holders.erase p) (freeFrames order h p ++ frames) := by
  have unheld := inv.ledger.outside_of_zero (inv.ledger.holdersIn p holder) zero
  refine ⟨inv.toUnwinding.opens holder unheld sameFields, inv.phase, inv.noTmp, ?_, inv.dead, ?_, inv.gcIn, inv.gcNodup,
    inv.zeroNodup, inv.unmarked⟩
  · intro q removed
    rw [freeFrames_removals] at removed
    rcases List.mem_cons.mp removed with rfl | old
    · exact zero
    · exact inv.empty q old
  · intro q still
    exact inv.alive q (List.mem_of_mem_erase still)

theorem Draining.freeNow (inv : Draining gcObjType outside objects h holders (.release p :: frames))
    (zero : (h.decrement p).refCount p = 0) (sameFields : ∀ p list, (order p list).Perm list) :
    Draining gcObjType outside objects (h.decrement p) (holders.erase p) (freeFrames order (h.decrement p) p ++ frames) := by
  obtain ⟨holder, notDead, inGc, notRemoved⟩ := inv.owed_alive
  have decremented := inv.toUnwinding.decrement
  have unheld := decremented.ledger.outside_of_zero (decremented.ledger.holdersIn p holder) zero
  refine ⟨decremented.opens holder unheld sameFields, inv.phase, inv.noTmp, ?_, ?_, ?_, inv.gcIn,
    inv.gcNodup, inv.zeroNodup, inv.unmarked⟩
  · intro q removed
    rw [freeFrames_removals] at removed
    rcases List.mem_cons.mp removed with rfl | old
    · exact zero
    · exact (h.decrement_other (ne_of_mem_of_not_mem old notRemoved)).trans (inv.empty q old)
  · intro q isDead
    rw [h.decrement_other (ne_of_mem_of_not_mem isDead notDead)]
    exact inv.dead q isDead
  · intro q still listed
    obtain ⟨notP, stillHolder⟩ := inv.holdersNodup.mem_erase_iff.mp still
    rw [h.decrement_other notP]
    exact inv.alive q stillHolder listed

theorem Draining.jsFree (inv : Draining gcObjType outside objects h holders (.remove p :: frames)) :
    Draining gcObjType outside objects ((h.listDel p).jsFree p) holders frames := by
  have zero : h.refCount p = 0 := inv.empty p List.mem_cons_self
  have notHolder : p ∉ holders := (inv.removing p List.mem_cons_self).1
  refine ⟨inv.toUnwinding.jsFree zero, inv.phase, ?_, ?_, ?_, ?_, ?_, inv.gcNodup.erase p, inv.zeroNodup.erase p, ?_⟩
  · simp [Heap.jsFree, Heap.assert, Heap.listDel, inv.noTmp]
  · intro q later
    exact inv.empty q (List.mem_cons_of_mem p later)
  · intro q member
    obtain ⟨notP, old⟩ := inv.zeroNodup.mem_erase_iff.mp member
    exact ⟨(List.mem_erase_of_ne notP).mpr (inv.dead q old).1, (inv.dead q old).2⟩
  · intro q holder listed
    have notP : q ≠ p := ne_of_mem_of_not_mem holder notHolder
    have alive := inv.alive q holder fun old => listed ((List.mem_erase_of_ne notP).mpr old)
    exact ⟨(List.mem_erase_of_ne notP).mpr alive.1, alive.2⟩
  · intro q member
    obtain ⟨notP, old⟩ := inv.gcNodup.mem_erase_iff.mp member
    exact ⟨(List.mem_erase_of_ne notP).mpr (inv.gcIn q old).1, fun dead => (inv.gcIn q old).2 (List.mem_of_mem_erase dead)⟩
  · intro q member
    exact inv.unmarked q (List.mem_of_mem_erase member)

theorem Heap.cost_erase (h : Heap ν) (holder : p ∈ holders) :
    h.cost holders = (h.children p).length + 2 + h.cost (holders.erase p) := by
  simp only [Heap.cost]
  induction holders with
  | nil => cases holder
  | cons q rest ih =>
    by_cases isP : q = p
    · rw [isP, List.erase_cons_head, Collector.cost]
    · have later : p ∈ rest := by simpa [Ne.symm isP] using holder
      rw [List.erase_cons_tail (by simpa using isP), Collector.cost, Collector.cost, ih later]
      omega

/-- One frame of a free function is done and the work gets less. -/
theorem Draining.called {frame : Frame ν} (sameFields : ∀ p list, (order p list).Perm list)
    (inv : Draining gcObjType outside objects h holders (frame :: frames)) :
    ∃ others, Draining gcObjType outside objects (call gcObjType order h frame).1 others
        ((call gcObjType order h frame).2 ++ frames) ∧
      ((call gcObjType order h frame).2 ++ frames).length + (call gcObjType order h frame).1.cost others <
        (frame :: frames).length + h.cost holders := by
  rcases inv.inner frame List.mem_cons_self with ⟨p, rfl⟩ | ⟨p, rfl⟩
  · by_cases positive : 0 < (h.decrement p).refCount p
    · have next : call gcObjType order h (.release p) = (h.decrement p, []) := by
        simp only [call, release, if_pos positive]
      rw [next]
      refine ⟨holders, inv.decrement positive, ?_⟩
      simp [Heap.cost, Heap.decrement, Heap.assert]
    · have zero : (h.decrement p).refCount p = 0 := by
        have bound := inv.toUnwinding.decrement.ledger.nonneg (inv.ledger.owedIn p List.mem_cons_self)
        omega
      by_cases isValue : (gcObjType p).isValue = true
      · have next : call gcObjType order h (.release p) = ((h.decrement p).zeroHead p, []) := by
          have phase : (h.decrement p).gcPhase = .decref := inv.phase
          simp only [call, release, if_neg positive, if_pos isValue, phase]
        rw [next]
        refine ⟨holders, inv.zeroHead zero isValue, ?_⟩
        simp [Heap.cost, Heap.decrement, Heap.assert, Heap.zeroHead, Heap.listDel]
      · have next : call gcObjType order h (.release p) =
            (h.decrement p, freeFrames order (h.decrement p) p) := by
          simp only [call, release, if_neg positive, if_neg isValue]
          rw [zero, decide_eq_true rfl, Heap.assert_true]
        obtain ⟨holder, -⟩ := inv.owed_alive
        rw [next]
        refine ⟨holders.erase p, inv.freeNow zero sameFields, ?_⟩
        have whole : (h.decrement p).cost holders = h.cost holders := rfl
        have less := (h.decrement p).cost_erase holder
        rw [List.length_append, freeFrames_length _ _ _ sameFields, List.length_cons]
        dsimp only
        omega
  · have next : call gcObjType order h (.remove p) = ((h.listDel p).jsFree p, []) := by
      simp [call, remove, inv.phase]
    rw [next]
    refine ⟨holders, inv.jsFree, ?_⟩
    simp [Heap.cost, Heap.jsFree, Heap.assert, Heap.listDel]

theorem Draining.unwinds (sameFields : ∀ p list, (order p list).Perm list) : (fuel : Nat) → {h : Heap ν} →
    {holders : List ν} → {frames : List (Frame ν)} → Draining gcObjType outside objects h holders frames →
    frames.length + h.cost holders < fuel → ∃ last others, Draining gcObjType outside objects last others [] ∧
      last.gcZeroRefCountList = [] ∧ unwind gcObjType order fuel h (frames ++ [.freeZeroRefcount]) =
        some { last with gcPhase := .none }
  | 0, _, _, _, _, enough => absurd enough (Nat.not_lt_zero _)
  | fuel + 1, h, holders, [], inv, enough => by
    rw [List.nil_append, unwind]
    cases queue : h.gcZeroRefCountList with
    | nil =>
      refine ⟨h, holders, inv, queue, ?_⟩
      simp [call, freeZeroRefcount, queue, unwind]
    | cons p rest =>
      have dead := inv.dead p (by simp [queue])
      have holder : p ∈ holders := by simpa [removals] using (inv.memory p).mp dead.1
      have next : call gcObjType order h .freeZeroRefcount =
          (h, freeFrames order h p ++ [.freeZeroRefcount]) := by
        simp [call, freeZeroRefcount, queue, dead.2, Heap.assert_true]
      have less := h.cost_erase holder
      have opened := inv.opens holder dead.2.1 sameFields
      rw [next]
      rw [List.append_nil] at opened ⊢
      refine Draining.unwinds sameFields fuel opened ?_
      rw [freeFrames_length _ _ _ sameFields]
      simp only [List.length_nil] at enough ⊢
      omega
  | fuel + 1, h, holders, frame :: frames, inv, enough => by
    obtain ⟨others, after, less⟩ := inv.called sameFields
    rw [List.cons_append, unwind, ← List.append_assoc]
    exact Draining.unwinds sameFields fuel after (by omega)

end Drain

section Shrinks

variable {ν : Type} [DecidableEq ν] (gcObjType : ν → GcObjType) (order : ν → List ν → List ν)

theorem call_shrinks (h : Heap ν) (frame : Frame ν) : (call gcObjType order h frame).1.children = h.children ∧
    (call gcObjType order h frame).1.gcObjList.Sublist h.gcObjList := by
  have deleted (p : ν) : (h.gcObjList.erase p).Sublist h.gcObjList := List.erase_sublist
  cases frame with
  | release p =>
    simp only [call, release]
    split
    · exact ⟨rfl, .refl _⟩
    · split
      · split <;> exact ⟨rfl, by first | exact .refl _ | exact deleted p⟩
      · exact ⟨rfl, .refl _⟩
  | remove p =>
    simp only [call, remove]
    split <;> exact ⟨rfl, deleted p⟩
  | freeZeroRefcount =>
    simp only [call, freeZeroRefcount]
    split <;> exact ⟨rfl, .refl _⟩
  | freeCycles =>
    simp only [call, freeCycles]
    split
    · exact ⟨rfl, .refl _⟩
    · split <;> exact ⟨rfl, by first | exact .refl _ | exact deleted _⟩

theorem unwind_shrinks : (fuel : Nat) → {h last : Heap ν} → {frames : List (Frame ν)} →
    unwind gcObjType order fuel h frames = some last →
    last.children = h.children ∧ last.gcObjList.Sublist h.gcObjList
  | _, h, last, [], ended => by
    cases Option.some.inj ((unwind.eq_1 ..).symm.trans ended)
    exact ⟨rfl, .refl _⟩
  | 0, _, _, _ :: _, ended => nomatch ended
  | fuel + 1, h, last, frame :: rest, ended => by
    obtain ⟨children, shorter⟩ := unwind_shrinks fuel ended
    obtain ⟨children', shorter'⟩ := call_shrinks gcObjType order h frame
    exact ⟨children.trans children', shorter.trans shorter'⟩

end Shrinks

section Sound

variable {ν : Type} [DecidableEq ν]

/-- What the fields of a type refer to: only a context refers to shapes and variables without a value in between. -/
def GcObjType.mayRefer : GcObjType → GcObjType → Bool
  | .jsObject, _ | .functionBytecode, _ => true
  | .jsContext, target => target.isValue || target = .shape || target = .varRef
  | _, target => target.isValue

structure Heap.Sound (gcObjType : ν → GcObjType) (outside : ν → Nat) (h : Heap ν) : Prop where
  counted : Counted h.children outside h.toState
  alive : ∀ p ∈ h.gcObjList, 0 < h.refCount p
  memory : h.allocated.Perm h.gcObjList
  typed : ∀ p ∈ h.gcObjList, ∀ c ∈ h.children p, (gcObjType p).mayRefer (gcObjType c) = true
  idle : h.gcPhase = .none
  noTmp : h.tmpObjList = []
  noZero : h.gcZeroRefCountList = []

variable {gcObjType : ν → GcObjType} {order : ν → List ν → List ν} {outside : ν → Nat} {h : Heap ν} {p : ν}

theorem Heap.Sound.ledger (sound : h.Sound gcObjType outside) :
    Ledger outside h.children h.refCount h.allocated h.gcObjList [] where
  counts q member := by simpa using sound.counted.counts q (sound.memory.mem_iff.mp member)
  fieldsIn q holder c field := sound.memory.mem_iff.mpr (sound.counted.closed q holder c field)
  owedIn := by simp
  holdersIn _ member := sound.memory.mem_iff.mpr member

/-- A ledger in which nothing is owed is what a sound heap asks for. -/
theorem counted_of_ledger {s : State ν} {fields : ν → List ν} {memory : List ν}
    (ledger : Ledger outside fields s.refCount memory s.gcObjList []) (same : memory.Perm s.gcObjList)
    (nodup : s.gcObjList.Nodup) (unmarked : ∀ q ∈ s.gcObjList, s.mark q = false) (sound : s.failed = false) :
    Counted fields outside s where
  nodup := nodup
  closed q holder c field := same.mem_iff.mp (ledger.fieldsIn q holder c field)
  counts q member := by simpa using ledger.counts q (same.mem_iff.mpr member)
  unmarked := unmarked
  sound := sound

theorem Draining.ends {objects holders : List ν} (inv : Draining gcObjType outside objects h holders [])
    (empty : h.gcZeroRefCountList = [])
    (typed : ∀ q ∈ h.gcObjList, ∀ c ∈ h.children q, (gcObjType q).mayRefer (gcObjType c) = true) :
    ({ h with gcPhase := .none } : Heap ν).Sound gcObjType outside ∧
      ∀ q ∈ objects, 0 < outside q → q ∈ h.gcObjList := by
  have inMemory (q : ν) : q ∈ h.allocated ↔ q ∈ holders := by simp [inv.memory, removals]
  have alive (q : ν) (holder : q ∈ holders) := inv.alive q holder (by simp [empty])
  have members (q : ν) : q ∈ holders ↔ q ∈ h.gcObjList :=
    ⟨fun holder => (alive q holder).1, fun member => (inMemory q).mp (inv.gcIn q member).1⟩
  have same : holders.Perm h.gcObjList := (List.perm_ext_iff_of_nodup inv.holdersNodup inv.gcNodup).mpr members
  have memory : h.allocated.Perm h.gcObjList :=
    (List.perm_ext_iff_of_nodup inv.once inv.gcNodup).mpr fun q => (inMemory q).trans (members q)
  have counted := counted_of_ledger (inv.ledger.perm same) memory inv.gcNodup inv.unmarked inv.sound
  refine ⟨⟨counted, ?_, memory, typed, rfl, inv.noTmp, empty⟩, ?_⟩
  · intro q member
    exact (alive q ((members q).mpr member)).2
  · intro q member held
    exact (members q).mp (inv.rooted q member held)

/-- A reference from outside is about to be released. -/
theorem Heap.Sound.releasing (sound : h.Sound gcObjType outside) (member : p ∈ h.gcObjList) (held : 0 < outside p) :
    Unwinding (Function.update outside p (outside p - 1)) h.gcObjList h h.gcObjList [] [.release p] := by
  refine ⟨sound.ledger.hand_over (sound.memory.mem_iff.mpr member) held, ?_, sound.counted.nodup, List.nodup_nil,
    by simp [removals], by simp, sound.memory.nodup_iff.mpr sound.counted.nodup, fun q here _ => here, ?_,
    sound.counted.sound⟩
  · intro q
    simpa [removals] using sound.memory.mem_iff
  · intro frame here
    exact .inl ⟨p, List.mem_singleton.mp here⟩

theorem Heap.Sound.draining {after : ν → Nat} (sound : h.Sound gcObjType outside)
    (released : Unwinding after h.gcObjList (h.decrement p) h.gcObjList [] []) (member : p ∈ h.gcObjList)
    (zero : (h.decrement p).refCount p = 0) (isValue : (gcObjType p).isValue = true) :
    Draining gcObjType after h.gcObjList { (h.decrement p).zeroHead p with gcPhase := .decref } h.gcObjList [] := by
  have queue : ((h.decrement p).zeroHead p).gcZeroRefCountList = [p] := by
    simp [Heap.zeroHead, Heap.listDel, Heap.decrement, Heap.assert, sound.noZero]
  refine ⟨{ released with }, rfl, ?_, by simp [removals], ?_, ?_, ?_, sound.counted.nodup.erase p, ?_, ?_⟩
  · simp [Heap.zeroHead, Heap.listDel, Heap.decrement, Heap.assert, sound.noTmp]
  · intro q dead
    rw [queue, List.mem_singleton] at dead
    subst dead
    exact ⟨sound.memory.mem_iff.mpr member, zero, isValue⟩
  · intro q here listed
    rw [queue, List.mem_singleton] at listed
    exact ⟨(List.mem_erase_of_ne listed).mpr here, (sound.alive q here).trans_eq (h.decrement_other listed).symm⟩
  · intro q still
    obtain ⟨notP, here⟩ := sound.counted.nodup.mem_erase_iff.mp still
    rw [queue, List.mem_singleton]
    exact ⟨sound.memory.mem_iff.mpr here, notP⟩
  · rw [queue]
    exact List.nodup_singleton p
  · intro q still
    exact sound.counted.unmarked q (List.mem_of_mem_erase still)

theorem Heap.Sound.freeValue (sound : h.Sound gcObjType outside) (member : p ∈ h.gcObjList) (held : 0 < outside p)
    (isValue : (gcObjType p).isValue = true) (sameFields : ∀ p list, (order p list).Perm list) :
    ∃ last, freeValue gcObjType order h p = some last ∧
      last.Sound gcObjType (Function.update outside p (outside p - 1)) ∧
      last.children = h.children ∧ last.gcObjList.Sublist h.gcObjList ∧
      ∀ q ∈ h.gcObjList, 0 < Function.update outside p (outside p - 1) q → q ∈ last.gcObjList := by
  have released := (sound.releasing member held).decrement
  by_cases positive : 0 < (h.decrement p).refCount p
  · have done : Collector.freeValue gcObjType order h p = some (h.decrement p) := by
      simp only [Collector.freeValue, unwind, call, release, if_pos positive, List.nil_append]
    have counted := counted_of_ledger (s := (h.decrement p).toState) released.ledger sound.memory sound.counted.nodup
      sound.counted.unmarked released.sound
    refine ⟨h.decrement p, done, ⟨counted, ?_, sound.memory, sound.typed, sound.idle, sound.noTmp, sound.noZero⟩, rfl,
      .refl _, fun q here _ => here⟩
    intro q here
    by_cases isP : q = p
    · rwa [isP]
    · rw [h.decrement_other isP]
      exact sound.alive q here
  · have zero : (h.decrement p).refCount p = 0 := by
      have bound := released.ledger.nonneg (sound.memory.mem_iff.mpr member)
      omega
    have enough : ([] : List (Frame ν)).length + (h.decrement p).cost h.gcObjList < h.cost h.gcObjList + 1 := by
      rw [List.length_nil, Nat.zero_add]
      exact Nat.lt_succ_self _
    obtain ⟨last, holders, ended, empty, drained⟩ :=
      (sound.draining released member zero isValue).unwinds sameFields (h.cost h.gcObjList + 1) enough
    have first : Collector.freeValue gcObjType order h p = some { last with gcPhase := .none } := by
      have phase : (h.decrement p).gcPhase = .none := sound.idle
      rw [← drained, Collector.freeValue, unwind]
      simp only [call, release, if_neg positive, if_pos isValue, phase]
      rfl
    obtain ⟨children, shorter⟩ := unwind_shrinks gcObjType order _ drained
    have sub : last.gcObjList.Sublist h.gcObjList := shorter.trans List.erase_sublist
    have typed : ∀ q ∈ last.gcObjList, ∀ c ∈ last.children q, (gcObjType q).mayRefer (gcObjType c) = true := by
      intro q here c field
      exact sound.typed q (sub.subset here) c (children ▸ field)
    obtain ⟨isSound, kept⟩ := ended.ends empty typed
    exact ⟨_, first, isSound, children, sub, kept⟩

end Sound

end Sano.Runtime.Collector
