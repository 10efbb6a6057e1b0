import Sano.Runtime.Cycles

namespace Sano.Runtime.Collector

/-- What the code outside of the heap does with it: `store` puts a reference that it holds into a field, and `take` makes
a field's reference its own. -/
inductive Action (ν : Type) where
  | create (p : ν)
  | dupValue (p : ν)
  | freeValue (p : ν)
  | store (p c : ν)
  | take (p c : ν)
  | runGC

structure World (ν : Type) where
  heap : Heap ν
  outside : ν → Nat

section Model

variable {ν : Type} [DecidableEq ν]

def World.empty : World ν :=
  { heap :=
      { refCount := fun _ => 0
        mark := fun _ => false
        gcObjList := []
        tmpObjList := []
        children := fun _ => []
        gcZeroRefCountList := []
        gcPhase := .none
        allocated := [] }
    outside := fun _ => 0 }

def addGcObject (h : Heap ν) (p : ν) : Heap ν :=
  { h with
    refCount := Function.update h.refCount p 1
    mark := Function.update h.mark p false
    gcObjList := h.gcObjList ++ [p]
    children := Function.update h.children p []
    allocated := h.allocated ++ [p] }

def dupValue (h : Heap ν) (p : ν) : Heap ν := { h with refCount := Function.update h.refCount p (h.refCount p + 1) }

def setFields (h : Heap ν) (p : ν) (fields : List ν) : Heap ν :=
  { h with children := Function.update h.children p fields }

variable (gcObjType : ν → GcObjType) (order : ν → List ν → List ν)

def act (w : World ν) : Action ν → Option (World ν)
  | .create p => some { heap := addGcObject w.heap p, outside := Function.update w.outside p 1 }
  | .dupValue p => some { heap := dupValue w.heap p, outside := Function.update w.outside p (w.outside p + 1) }
  | .freeValue p => do
    let heap ← freeValue gcObjType order w.heap p
    some { heap := heap, outside := Function.update w.outside p (w.outside p - 1) }
  | .store p c =>
    some
      { heap := setFields w.heap p (w.heap.children p ++ [c])
        outside := Function.update w.outside c (w.outside c - 1) }
  | .take p c =>
    some
      { heap := setFields w.heap p ((w.heap.children p).erase c)
        outside := Function.update w.outside c (w.outside c + 1) }
  | .runGC => do
    let heap ← runGC gcObjType order w.heap
    some { heap := heap, outside := w.outside }

def Permitted (w : World ν) : Action ν → Prop
  | .create p => p ∉ w.heap.allocated
  | .dupValue p => p ∈ w.heap.allocated
  | .freeValue p => 0 < w.outside p ∧ (gcObjType p).isValue = true
  | .store p c => p ∈ w.heap.allocated ∧ 0 < w.outside c ∧ (gcObjType p).mayRefer (gcObjType c) = true
  | .take p c => p ∈ w.heap.allocated ∧ c ∈ w.heap.children p
  | .runGC => True

instance decidablePermitted (w : World ν) : (action : Action ν) → Decidable (Permitted gcObjType w action)
  | .create p => inferInstanceAs (Decidable (p ∉ w.heap.allocated))
  | .dupValue p => inferInstanceAs (Decidable (p ∈ w.heap.allocated))
  | .freeValue p => inferInstanceAs (Decidable (0 < w.outside p ∧ (gcObjType p).isValue = true))
  | .store p c =>
    inferInstanceAs
      (Decidable (p ∈ w.heap.allocated ∧ 0 < w.outside c ∧ (gcObjType p).mayRefer (gcObjType c) = true))
  | .take p c => inferInstanceAs (Decidable (p ∈ w.heap.allocated ∧ c ∈ w.heap.children p))
  | .runGC => isTrue trivial

def run (w : World ν) (actions : List (Action ν)) : Option (World ν) := actions.foldlM (act gcObjType order) w

def Legal : World ν → List (Action ν) → Prop
  | _, [] => True
  | w, action :: rest => Permitted gcObjType w action ∧
    match act gcObjType order w action with
    | some next => Legal next rest
    | none => True

instance decidableLegal : (w : World ν) → (actions : List (Action ν)) → Decidable (Legal gcObjType order w actions)
  | _, [] => isTrue trivial
  | w, action :: rest =>
    have : Decidable (match act gcObjType order w action with
        | some next => Legal gcObjType order next rest
        | none => True) :=
      match act gcObjType order w action with
      | some next => decidableLegal next rest
      | none => isTrue trivial
    inferInstanceAs (Decidable (_ ∧ _))

end Model

section Safety

variable {ν : Type} [DecidableEq ν]

structure World.Safe (gcObjType : ν → GcObjType) (w : World ν) : Prop where
  sound : w.heap.Sound gcObjType w.outside
  holds : ∀ p, 0 < w.outside p → p ∈ w.heap.gcObjList

variable {gcObjType : ν → GcObjType} {order : ν → List ν → List ν} {w : World ν}

theorem World.empty_safe : (World.empty : World ν).Safe gcObjType where
  sound := by
    refine ⟨⟨List.nodup_nil, ?_, ?_, ?_, rfl⟩, ?_, .refl _, ?_, rfl, rfl, rfl⟩ <;> intro p member <;> cases member
  holds p held := absurd held (Nat.lt_irrefl 0)

theorem World.Safe.create {p : ν} (safe : w.Safe gcObjType) (new : p ∉ w.heap.allocated) :
    World.Safe gcObjType { heap := addGcObject w.heap p, outside := Function.update w.outside p 1 } := by
  have absent : p ∉ w.heap.gcObjList := fun member => new (safe.sound.memory.mem_iff.mpr member)
  have memory : (w.heap.allocated ++ [p]).Perm (w.heap.gcObjList ++ [p]) := safe.sound.memory.append_right [p]
  have nodup : (w.heap.gcObjList ++ [p]).Nodup := by
    rw [← List.concat_eq_append]
    exact safe.sound.counted.nodup.concat absent
  have unmarked : ∀ q ∈ w.heap.gcObjList ++ [p], Function.update w.heap.mark p false q = false := by
    intro q member
    by_cases isP : q = p
    · simp [isP]
    · have old : q ∈ w.heap.gcObjList := by simpa [isP] using member
      rw [Function.update_of_ne isP]
      exact safe.sound.counted.unmarked q old
  have counted := counted_of_ledger (s := (addGcObject w.heap p).toState) (safe.sound.ledger.allocate new) memory nodup
    unmarked safe.sound.counted.sound
  refine ⟨⟨counted, ?_, memory, ?_, safe.sound.idle, safe.sound.noTmp, safe.sound.noZero⟩, ?_⟩
  · intro q member
    by_cases isP : q = p
    · simp [addGcObject, isP]
    · have old : q ∈ w.heap.gcObjList := by simpa [addGcObject, isP] using member
      simpa [addGcObject, isP] using safe.sound.alive q old
  · intro q member c field
    by_cases isP : q = p
    · simp [addGcObject, isP] at field
    · have old : q ∈ w.heap.gcObjList := by simpa [addGcObject, isP] using member
      exact safe.sound.typed q old c (by simpa [addGcObject, isP] using field)
  · intro q held
    by_cases isP : q = p
    · simp [addGcObject, isP]
    · have old : 0 < w.outside q := by simpa [isP] using held
      exact List.mem_append_left _ (safe.holds q old)

theorem World.Safe.dupValue {p : ν} (safe : w.Safe gcObjType) (inMemory : p ∈ w.heap.allocated) :
    World.Safe gcObjType
      { heap := dupValue w.heap p, outside := Function.update w.outside p (w.outside p + 1) } := by
  have counted := counted_of_ledger (s := (Collector.dupValue w.heap p).toState) (safe.sound.ledger.lend inMemory).hold
    safe.sound.memory safe.sound.counted.nodup safe.sound.counted.unmarked safe.sound.counted.sound
  refine ⟨⟨counted, ?_, safe.sound.memory, safe.sound.typed, safe.sound.idle, safe.sound.noTmp, safe.sound.noZero⟩, ?_⟩
  · intro q member
    have before := safe.sound.alive q member
    by_cases isP : q = p
    · subst isP
      simp only [Collector.dupValue, Function.update_self]
      omega
    · simpa [Collector.dupValue, isP] using before
  · intro q held
    by_cases isP : q = p
    · rw [isP]
      exact safe.sound.memory.mem_iff.mp inMemory
    · exact safe.holds q (by simpa [isP] using held)

theorem World.Safe.freeValue {p : ν} (sameFields : ∀ p list, (order p list).Perm list) (safe : w.Safe gcObjType)
    (held : 0 < w.outside p) (isValue : (gcObjType p).isValue = true) :
    ∃ heap, freeValue gcObjType order w.heap p = some heap ∧
      World.Safe gcObjType { heap := heap, outside := Function.update w.outside p (w.outside p - 1) } := by
  obtain ⟨last, freed, sound, -, -, kept⟩ := safe.sound.freeValue (safe.holds p held) held isValue sameFields
  refine ⟨last, freed, sound, fun q still => kept q (safe.holds q ?_) still⟩
  by_cases isP : q = p
  · rwa [isP]
  · simpa [isP] using still

theorem World.Safe.setFields {p : ν} {fields : List ν} {outside : ν → Nat} (safe : w.Safe gcObjType)
    (ledger : Ledger outside (Function.update w.heap.children p fields) w.heap.refCount w.heap.allocated
      w.heap.gcObjList [])
    (typed : ∀ c ∈ fields, (gcObjType p).mayRefer (gcObjType c) = true)
    (holds : ∀ q, 0 < outside q → q ∈ w.heap.gcObjList) :
    World.Safe gcObjType { heap := setFields w.heap p fields, outside := outside } := by
  have counted := counted_of_ledger (s := w.heap.toState) ledger safe.sound.memory safe.sound.counted.nodup
    safe.sound.counted.unmarked safe.sound.counted.sound
  refine ⟨⟨counted, safe.sound.alive, safe.sound.memory, ?_, safe.sound.idle, safe.sound.noTmp, safe.sound.noZero⟩,
    holds⟩
  intro q here c field
  simp only [Collector.setFields] at field
  by_cases isP : q = p
  · subst isP
    rw [Function.update_self] at field
    exact typed c field
  · rw [Function.update_of_ne isP] at field
    exact safe.sound.typed q here c field

theorem World.Safe.store {p c : ν} (safe : w.Safe gcObjType) (inMemory : p ∈ w.heap.allocated) (held : 0 < w.outside c)
    (may : (gcObjType p).mayRefer (gcObjType c) = true) :
    World.Safe gcObjType
      { heap := Collector.setFields w.heap p (w.heap.children p ++ [c])
        outside := Function.update w.outside c (w.outside c - 1) } := by
  have member : p ∈ w.heap.gcObjList := safe.sound.memory.mem_iff.mp inMemory
  have ledger := safe.sound.ledger.hand_over (safe.sound.memory.mem_iff.mpr (safe.holds c held)) held
  refine safe.setFields (ledger.keep safe.sound.counted.nodup member) ?_ ?_
  · intro d field
    rcases List.mem_append.mp field with old | new
    · exact safe.sound.typed p member d old
    · rwa [List.mem_singleton.mp new]
  · intro q still
    by_cases isC : q = c
    · rw [isC]
      exact safe.holds c held
    · exact safe.holds q (by simpa [isC] using still)

theorem World.Safe.take {p c : ν} (safe : w.Safe gcObjType) (inMemory : p ∈ w.heap.allocated)
    (field : c ∈ w.heap.children p) :
    World.Safe gcObjType
      { heap := Collector.setFields w.heap p ((w.heap.children p).erase c)
        outside := Function.update w.outside c (w.outside c + 1) } := by
  have member : p ∈ w.heap.gcObjList := safe.sound.memory.mem_iff.mp inMemory
  refine safe.setFields (safe.sound.ledger.take safe.sound.counted.nodup member field).hold ?_ ?_
  · intro d left
    exact safe.sound.typed p member d (List.mem_of_mem_erase left)
  · intro q held
    by_cases isC : q = c
    · rw [isC]
      exact safe.sound.counted.closed p member c field
    · exact safe.holds q (by simpa [isC] using held)

theorem World.Safe.runGC (sameFields : ∀ p list, (order p list).Perm list) (safe : w.Safe gcObjType) :
    ∃ heap, runGC gcObjType order w.heap = some heap ∧
      World.Safe gcObjType { heap := heap, outside := w.outside } ∧ heap.children = w.heap.children ∧
      ∀ q, q ∈ heap.gcObjList ↔ q ∈ w.heap.gcObjList ∧ Reached w.heap.children w.outside w.heap.gcObjList q := by
  obtain ⟨last, ran, sound, children, kept⟩ := safe.sound.runGC sameFields
  refine ⟨last, ran, ⟨sound, fun q held => ?_⟩, children, kept⟩
  exact (kept q).mpr ⟨safe.holds q held, q, safe.holds q held, held, .refl⟩

theorem World.Safe.act {action : Action ν} (sameFields : ∀ p list, (order p list).Perm list)
    (safe : w.Safe gcObjType) (permitted : Permitted gcObjType w action) :
    ∃ next, act gcObjType order w action = some next ∧ next.Safe gcObjType := by
  cases action with
  | create p => exact ⟨_, rfl, safe.create permitted⟩
  | dupValue p => exact ⟨_, rfl, safe.dupValue permitted⟩
  | freeValue p =>
    obtain ⟨heap, freed, after⟩ := safe.freeValue sameFields permitted.1 permitted.2
    exact ⟨_, by simp only [Collector.act, freed, Option.bind_eq_bind, Option.bind_some], after⟩
  | store p c => exact ⟨_, rfl, safe.store permitted.1 permitted.2.1 permitted.2.2⟩
  | take p c => exact ⟨_, rfl, safe.take permitted.1 permitted.2⟩
  | runGC =>
    obtain ⟨heap, ran, after, -⟩ := safe.runGC sameFields
    exact ⟨_, by simp only [Collector.act, ran, Option.bind_eq_bind, Option.bind_some], after⟩

theorem World.Safe.run (sameFields : ∀ p list, (order p list).Perm list) : (actions : List (Action ν)) →
    {w : World ν} → w.Safe gcObjType → Legal gcObjType order w actions →
    ∃ last, run gcObjType order w actions = some last ∧ last.Safe gcObjType
  | [], w, safe, _ => ⟨w, rfl, safe⟩
  | action :: rest, w, safe, legal => by
    obtain ⟨next, acted, after⟩ := safe.act sameFields legal.1
    have later := legal.2
    rw [acted] at later
    obtain ⟨last, ran, ended⟩ := World.Safe.run sameFields rest after later
    refine ⟨last, ?_, ended⟩
    rw [Collector.run, List.foldlM_cons, acted]
    exact ran

def World.Reaches (w : World ν) (p : ν) : Prop :=
  ∃ root, 0 < w.outside root ∧ Relation.ReflTransGen (fun owner child => child ∈ w.heap.children owner) root p

theorem World.Safe.reaches_iff {p : ν} (safe : w.Safe gcObjType) :
    w.Reaches p ↔ Reached w.heap.children w.outside w.heap.gcObjList p := by
  constructor
  · rintro ⟨root, held, path⟩
    exact ⟨root, safe.holds root held, held, path⟩
  · rintro ⟨root, -, held, path⟩
    exact ⟨root, held, path⟩

theorem World.Safe.reaches_allocated {p : ν} (safe : w.Safe gcObjType) (reaches : w.Reaches p) :
    p ∈ w.heap.allocated :=
  safe.sound.memory.mem_iff.mpr (Reached.mem safe.sound.counted.closed (safe.reaches_iff.mp reaches))

end Safety

section Runs

def heldAndCycle : List (Action Nat) :=
  [.create 9, .dupValue 9, .create 0, .store 0 9, .create 1, .store 0 1, .create 2, .create 3, .dupValue 2, .store 3 2,
    .store 2 3, .store 2 9, .freeValue 2, .create 4, .create 5, .store 4 5, .freeValue 4]

def shapeOrObject (p : Nat) : GcObjType := if p = 9 then .shape else .jsObject

def inOrder (_ : Nat) (fields : List Nat) : List Nat := fields

variable {ν : Type} [DecidableEq ν] {gcObjType : ν → GcObjType} {order : ν → List ν → List ν}

/-- Whatever is done with the heap, all loops end, nothing that a held reference leads to is freed or used after it was
freed, and each count is that of the references. -/
theorem run_keeps_memory (sameFields : ∀ p list, (order p list).Perm list) (actions : List (Action ν))
    (legal : Legal gcObjType order World.empty actions) :
    ∃ w, run gcObjType order World.empty actions = some w ∧ w.heap.failed = false ∧
      (∀ p, w.Reaches p → p ∈ w.heap.allocated) ∧
      ∀ p ∈ w.heap.allocated, 0 < w.heap.refCount p ∧
        w.heap.refCount p = w.outside p + (w.heap.allocated.flatMap w.heap.children).count p := by
  obtain ⟨w, ran, safe⟩ := World.empty_safe.run sameFields actions legal
  refine ⟨w, ran, safe.sound.counted.sound, fun p => safe.reaches_allocated, fun p inMemory => ?_⟩
  have member := safe.sound.memory.mem_iff.mp inMemory
  refine ⟨safe.sound.alive p member, ?_⟩
  rw [(safe.sound.memory.flatMap_right w.heap.children).count_eq p]
  exact safe.sound.counted.counts p member

theorem run_keeps_memory_pair :
    (∃ w, run shapeOrObject inOrder World.empty heldAndCycle = some w ∧ w.heap.failed = false ∧
      (∀ p, w.Reaches p → p ∈ w.heap.allocated) ∧
      ∀ p ∈ w.heap.allocated, 0 < w.heap.refCount p ∧
        w.heap.refCount p = w.outside p + (w.heap.allocated.flatMap w.heap.children).count p) ∧
    (run shapeOrObject inOrder World.empty heldAndCycle).map (·.heap.allocated) = some [9, 0, 1, 2, 3] :=
  ⟨run_keeps_memory (fun _ _ => .refl _) heldAndCycle (by decide), by decide⟩

/-- A collection leaves exactly what held references lead to. -/
theorem run_collects (sameFields : ∀ p list, (order p list).Perm list) (actions : List (Action ν))
    (legal : Legal gcObjType order World.empty actions) :
    ∃ w, run gcObjType order World.empty (actions ++ [.runGC]) = some w ∧ w.heap.failed = false ∧
      ∀ p, p ∈ w.heap.allocated ↔ w.Reaches p := by
  obtain ⟨w, ran, safe⟩ := World.empty_safe.run sameFields actions legal
  obtain ⟨heap, collected, after, children, kept⟩ := safe.runGC sameFields
  refine ⟨{ heap := heap, outside := w.outside }, ?_, after.sound.counted.sound, fun p => ?_⟩
  · rw [run] at ran
    simp only [run, List.foldlM_append, ran, Option.bind_eq_bind, Option.bind_some, List.foldlM_cons, List.foldlM_nil, act,
      collected]
    rfl
  · have reached : World.Reaches { heap := heap, outside := w.outside } p ↔ w.Reaches p := by
      simp only [World.Reaches, children]
    rw [after.sound.memory.mem_iff, kept, reached, safe.reaches_iff]
    exact ⟨And.right, fun reaches => ⟨reaches.mem safe.sound.counted.closed, reaches⟩⟩

theorem run_collects_pair :
    (∃ w, run shapeOrObject inOrder World.empty (heldAndCycle ++ [.runGC]) = some w ∧ w.heap.failed = false ∧
      ∀ p, p ∈ w.heap.allocated ↔ w.Reaches p) ∧
    (run shapeOrObject inOrder World.empty (heldAndCycle ++ [.runGC])).map (·.heap.allocated) = some [9, 0, 1] :=
  ⟨run_collects (fun _ _ => .refl _) heldAndCycle (by decide), by decide⟩

/-- Without a collection, what is left although no held reference leads to it is behind a cycle. -/
theorem garbage_behind_cycle (sameFields : ∀ p list, (order p list).Perm list) (actions : List (Action ν))
    (legal : Legal gcObjType order World.empty actions) :
    ∃ w, run gcObjType order World.empty actions = some w ∧
      ∀ p ∈ w.heap.allocated, ¬ w.Reaches p →
        ∃ q ∈ w.heap.allocated, Relation.TransGen (fun owner child => child ∈ w.heap.children owner) q q ∧
          Relation.ReflTransGen (fun owner child => child ∈ w.heap.children owner) q p := by
  obtain ⟨w, ran, safe⟩ := World.empty_safe.run sameFields actions legal
  refine ⟨w, ran, fun p inMemory unreached => ?_⟩
  refine safe.sound.ledger.cycle_behind (fun q here => ?_) inMemory fun root held path => unreached ⟨root, held, path⟩
  exact safe.sound.alive q (safe.sound.memory.mem_iff.mp here)

theorem garbage_behind_cycle_pair :
    ∃ w, run shapeOrObject inOrder World.empty heldAndCycle = some w ∧
      ∀ p ∈ w.heap.allocated, ¬ w.Reaches p →
        ∃ q ∈ w.heap.allocated, Relation.TransGen (fun owner child => child ∈ w.heap.children owner) q q ∧
          Relation.ReflTransGen (fun owner child => child ∈ w.heap.children owner) q p :=
  garbage_behind_cycle (fun _ _ => .refl _) heldAndCycle (by decide)

end Runs

end Sano.Runtime.Collector
