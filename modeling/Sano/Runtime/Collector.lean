import Mathlib.Data.List.Nodup
import Mathlib.Logic.Function.Basic
import Mathlib.Logic.Relation

namespace Sano.Runtime.Collector

section Model

variable {ν : Type} [DecidableEq ν]

/-- The headers and lists that a collection works on. `failed` is set where an `assert` does not hold. `ref_count` is
an `int`, which counts up to 2^31 - 1 references. -/
structure State (ν : Type) where
  refCount : ν → Int
  mark : ν → Bool
  gcObjList : List ν
  tmpObjList : List ν
  failed : Bool := false

def State.check (s : State ν) (holds : Bool) : State ν := { s with failed := s.failed || !holds }

def State.count (s : State ν) (p : ν) (value : Int) : State ν := { s with refCount := Function.update s.refCount p value }

def State.setMark (s : State ν) (p : ν) (value : Bool) : State ν := { s with mark := Function.update s.mark p value }

def State.listDel (s : State ν) (p : ν) : State ν :=
  { s with gcObjList := s.gcObjList.erase p, tmpObjList := s.tmpObjList.erase p }

def State.toTmp (s : State ν) (p : ν) : State ν := { s.listDel p with tmpObjList := (s.listDel p).tmpObjList ++ [p] }

def State.toGc (s : State ν) (p : ν) : State ν := { s.listDel p with gcObjList := (s.listDel p).gcObjList ++ [p] }

def next (list : List ν) (el : ν) : Option ν := (list.dropWhile (· ≠ el)).tail.head?

def gcDecrefChild (s : State ν) (p : ν) : State ν :=
  let s := (s.check (0 < s.refCount p)).count p (s.refCount p - 1)
  if s.refCount p = 0 ∧ s.mark p = true then s.toTmp p else s

-- What `mark_children` calls its argument on, with each object as often as it is referenced.
variable (children : ν → List ν)

def gcDecrefObject (s : State ν) (p : ν) : State ν :=
  let s := ((children p).foldl gcDecrefChild (s.check (s.mark p = false))).setMark p true
  if s.refCount p = 0 then s.toTmp p else s

/-- The loop of `list_for_each_safe`: the next entry is read before the body runs. -/
def decrefLoop : Nat → State ν → Option ν → State ν
  | fuel + 1, s, some el => decrefLoop fuel (gcDecrefObject children s el) (next s.gcObjList el)
  | _, s, _ => s

def gcDecref (s : State ν) : State ν :=
  decrefLoop children s.gcObjList.length { s with tmpObjList := [] } s.gcObjList.head?

def gcScanIncrefChild (s : State ν) (p : ν) : State ν :=
  let s := s.count p (s.refCount p + 1)
  if s.refCount p = 1 then (s.toGc p).setMark p false else s

def gcScanIncrefChild2 (s : State ν) (p : ν) : State ν := s.count p (s.refCount p + 1)

def gcScanObject (s : State ν) (p : ν) : State ν :=
  (children p).foldl gcScanIncrefChild ((s.check (0 < s.refCount p)).setMark p false)

/-- The loop of `list_for_each`: the next entry is read after the body, which appends to the list. -/
def scanLoop : Nat → State ν → Option ν → State ν
  | fuel + 1, s, some el =>
    let s := gcScanObject children s el
    scanLoop fuel s (next s.gcObjList el)
  | _, s, _ => s

def gcScan (s : State ν) : State ν :=
  let s := scanLoop children (s.gcObjList.length + s.tmpObjList.length) s s.gcObjList.head?
  s.tmpObjList.foldl (fun s p => (children p).foldl gcScanIncrefChild2 s) s

end Model

section Specification

variable {ν : Type} (children : ν → List ν) (outside : ν → Nat)

def Reached (objects : List ν) (p : ν) : Prop :=
  ∃ root ∈ objects, 0 < outside root ∧ Relation.ReflTransGen (fun owner child => child ∈ children owner) root p

variable [DecidableEq ν]

structure Counted (s : State ν) : Prop where
  nodup : s.gcObjList.Nodup
  closed : ∀ p ∈ s.gcObjList, ∀ c ∈ children p, c ∈ s.gcObjList
  counts : ∀ p ∈ s.gcObjList, s.refCount p = outside p + (s.gcObjList.flatMap children).count p
  unmarked : ∀ p ∈ s.gcObjList, s.mark p = false
  sound : s.failed = false

structure Separated (before after : State ν) : Prop where
  sound : after.failed = false
  kept : ∀ p, p ∈ after.gcObjList ↔ p ∈ before.gcObjList ∧ Reached children outside before.gcObjList p
  cyclic : ∀ p, p ∈ after.tmpObjList ↔ p ∈ before.gcObjList ∧ ¬ Reached children outside before.gcObjList p
  perm : (after.gcObjList ++ after.tmpObjList).Perm before.gcObjList
  counts : ∀ p ∈ before.gcObjList, after.refCount p = before.refCount p
  unmarked : ∀ p ∈ after.gcObjList, after.mark p = false

end Specification

section Reached

variable {ν : Type} {children : ν → List ν} {outside : ν → Nat} {objects : List ν} {p c : ν}

theorem Reached.child (reached : Reached children outside objects p) (owned : c ∈ children p) :
    Reached children outside objects c := by
  obtain ⟨root, member, held, path⟩ := reached
  exact ⟨root, member, held, path.tail owned⟩

theorem Reached.mem (closed : ∀ q ∈ objects, ∀ c ∈ children q, c ∈ objects)
    (reached : Reached children outside objects p) : p ∈ objects := by
  obtain ⟨root, member, -, path⟩ := reached
  induction path with
  | refl => exact member
  | tail _ field owner => exact closed _ owner _ field

/-- What keeps a reached object is also reached. -/
theorem Reached.holder (reached : Reached children outside objects p) :
    0 < outside p ∨ ∃ q, Reached children outside objects q ∧ p ∈ children q := by
  obtain ⟨root, member, held, path⟩ := reached
  rcases path.cases_tail with same | ⟨q, before, field⟩
  · exact .inl (same ▸ held)
  · exact .inr ⟨q, ⟨root, member, held, before⟩, field⟩

end Reached

section Lists

variable {ν : Type} [DecidableEq ν]

theorem next_append {before rest : List ν} {el : ν} (new : el ∉ before) : next (before ++ el :: rest) el = rest.head? := by
  have skipped : (before ++ el :: rest).dropWhile (· ≠ el) = el :: rest := by
    rw [List.dropWhile_append_of_pos]
    · simp
    · intro other member
      simpa using fun same : other = el => new (same ▸ member)
  rw [next, skipped]
  rfl

end Lists

section Decref

variable {ν : Type} {objects gc tmp : List ν} {idle : ν → Bool}

structure Placed (objects : List ν) (idle : ν → Bool) (gc tmp : List ν) : Prop where
  kept : gc = objects.filter (fun p => !idle p)
  moved : ∀ p, p ∈ tmp ↔ p ∈ objects ∧ idle p = true
  nodup : tmp.Nodup

theorem Placed.congr {idle' : ν → Bool} (placed : Placed objects idle gc tmp)
    (same : ∀ p ∈ objects, idle p = idle' p) : Placed objects idle' gc tmp where
  kept := by
    rw [placed.kept]
    exact List.filter_congr fun p member => by rw [same p member]
  moved p := by
    rw [placed.moved]
    constructor
    · rintro ⟨member, isIdle⟩
      exact ⟨member, same p member ▸ isIdle⟩
    · rintro ⟨member, isIdle⟩
      exact ⟨member, (same p member).trans isIdle⟩
  nodup := placed.nodup

variable [DecidableEq ν]

theorem Placed.move {c : ν} (placed : Placed objects idle gc tmp) (distinct : objects.Nodup) (member : c ∈ objects)
    (busy : idle c = false) :
    Placed objects (fun p => idle p || decide (p = c)) (gc.erase c) (tmp.erase c ++ [c]) := by
  have absent : c ∉ tmp := by simp [placed.moved, busy]
  rw [List.erase_of_not_mem absent]
  constructor
  · rw [placed.kept, (distinct.filter _).erase_eq_filter, List.filter_filter]
    refine List.filter_congr fun p _ => ?_
    by_cases isC : p = c <;> simp [isC]
  · intro p
    rw [List.mem_append, placed.moved]
    by_cases isC : p = c <;> simp [isC, member]
  · rw [← List.concat_eq_append]
    exact placed.nodup.concat absent

variable {s : State ν} {children : ν → List ν} {outside : ν → Nat} {done owed : List ν}

structure Decreased (outside : ν → Nat) (objects done owed : List ν) (s : State ν) : Prop where
  counts : ∀ p ∈ objects, s.refCount p = outside p + owed.count p
  marks : ∀ p ∈ objects, s.mark p = decide (p ∈ done)
  placed : Placed objects (fun p => decide (p ∈ done ∧ s.refCount p = 0)) s.gcObjList s.tmpObjList
  sound : s.failed = false

theorem Decreased.child {c : ν} (inv : Decreased outside objects done (c :: owed) s) (distinct : objects.Nodup)
    (member : c ∈ objects) : Decreased outside objects done owed (gcDecrefChild s c) := by
  have before : s.refCount c = outside c + (owed.count c + 1) := by simpa using inv.counts c member
  have counts : ∀ p ∈ objects, Function.update s.refCount c (s.refCount c - 1) p = outside p + owed.count p := by
    intro p inObjects
    by_cases isC : p = c
    · subst isC
      rw [Function.update_self, before]
      omega
    · rw [Function.update_of_ne isC, inv.counts p inObjects, List.count_cons_of_ne (Ne.symm isC)]
  have positive : 0 < s.refCount c := by omega
  have sound : (s.failed || !decide (0 < s.refCount c)) = false := by simp [inv.sound, positive]
  have busy : decide (c ∈ done ∧ s.refCount c = 0) = false := by
    simp only [decide_eq_false_iff_not, not_and]
    omega
  have marked := inv.marks c member
  simp only [gcDecrefChild, State.check, State.count, Function.update_self]
  split
  · next last =>
    refine ⟨counts, inv.marks, (inv.placed.move distinct member busy).congr fun p _ => ?_, sound⟩
    by_cases isC : p = c
    · have visited : c ∈ done := by simpa [last.2] using marked
      simp [isC, visited, last.1, State.toTmp, State.listDel]
    · simp [isC, State.toTmp, State.listDel]
  · next stays =>
    refine ⟨counts, inv.marks, inv.placed.congr fun p _ => ?_, sound⟩
    by_cases isC : p = c
    · subst isC
      have notLast : ¬ (p ∈ done ∧ s.refCount p - 1 = 0) := by
        intro both
        exact stays ⟨both.2, by simpa [both.1] using marked⟩
      simpa [busy] using notLast
    · simp [isC]

theorem Decreased.foldl (distinct : objects.Nodup) : (refs : List ν) → (∀ c ∈ refs, c ∈ objects) → {s : State ν} →
    Decreased outside objects done (refs ++ owed) s → Decreased outside objects done owed (refs.foldl gcDecrefChild s)
  | [], _, _, inv => inv
  | c :: refs, members, _, inv =>
    Decreased.foldl distinct refs (fun _ later => members _ (List.mem_cons_of_mem _ later))
      (Decreased.child inv distinct (members c List.mem_cons_self))

theorem Decreased.object {p : ν} (distinct : objects.Nodup) (member : p ∈ objects) (new : p ∉ done)
    (members : ∀ c ∈ children p, c ∈ objects) (inv : Decreased outside objects done (children p ++ owed) s) :
    Decreased outside objects (done ++ [p]) owed (gcDecrefObject children s p) := by
  have unmarked : s.mark p = false := by simpa [new] using inv.marks p member
  have checked : s.check (s.mark p = false) = s := by simp [State.check, unmarked]
  have folded := Decreased.foldl distinct (children p) members inv
  rw [gcDecrefObject, checked]
  generalize (children p).foldl gcDecrefChild s = s' at folded
  have marks : ∀ q ∈ objects, Function.update s'.mark p true q = decide (q ∈ done ++ [p]) := by
    intro q inObjects
    by_cases isP : q = p
    · simp [isP]
    · simp [isP, folded.marks q inObjects]
  have busy : decide (p ∈ done ∧ s'.refCount p = 0) = false := by simp [new]
  by_cases zero : (s'.setMark p true).refCount p = 0
  · rw [if_pos zero]
    refine ⟨folded.counts, marks, (folded.placed.move distinct member busy).congr fun q _ => ?_, folded.sound⟩
    by_cases isP : q = p
    · simp [isP, State.toTmp, State.listDel, zero]
    · simp [isP, State.toTmp, State.listDel, State.setMark]
  · rw [if_neg zero]
    refine ⟨folded.counts, marks, folded.placed.congr fun q _ => ?_, folded.sound⟩
    by_cases isP : q = p
    · simp [isP, zero, new]
    · simp [isP, State.setMark]

/-- The objects that the loop has not reached yet are all in the list. -/
theorem Decreased.rest {rest : List ν} (inv : Decreased outside (done ++ rest) done owed s)
    (distinct : (done ++ rest).Nodup) : ∃ before, s.gcObjList = before ++ rest ∧ ∀ p ∈ before, p ∈ done := by
  refine ⟨done.filter fun p => !decide (p ∈ done ∧ s.refCount p = 0), ?_, fun p member => List.mem_of_mem_filter member⟩
  have whole : (rest.filter fun p => !decide (p ∈ done ∧ s.refCount p = 0)) = rest := by
    refine List.filter_eq_self.mpr fun p member => ?_
    have new : p ∉ done := fun early => (List.nodup_append.mp distinct).2.2 p early p member rfl
    simp [new]
  rw [inv.placed.kept, List.filter_append, whole]

theorem decrefLoop_decreased (closed : ∀ p ∈ objects, ∀ c ∈ children p, c ∈ objects) (distinct : objects.Nodup) :
    (fuel : Nat) → (done rest : List ν) → {s : State ν} → objects = done ++ rest → rest.length ≤ fuel →
    Decreased outside objects done (rest.flatMap children) s →
    Decreased outside objects objects [] (decrefLoop children fuel s rest.head?)
  | fuel, done, [], s, whole, _, inv => by
    have same : decrefLoop children fuel s none = s := by cases fuel <;> rfl
    rw [List.append_nil] at whole
    subst whole
    simpa [same] using inv
  | fuel + 1, done, p :: rest, s, whole, enough, inv => by
    have new : p ∉ done := by
      rw [whole] at distinct
      exact fun early => (List.nodup_append.mp distinct).2.2 p early p List.mem_cons_self rfl
    have member : p ∈ objects := by simp [whole]
    have following : next s.gcObjList p = rest.head? := by
      subst whole
      obtain ⟨before, cut, visited⟩ := inv.rest distinct
      rw [cut]
      exact next_append fun early => new (visited p early)
    have step := Decreased.object distinct member new (closed p member) inv
    rw [List.head?_cons, decrefLoop, following]
    exact decrefLoop_decreased closed distinct fuel (done ++ [p]) rest (by simp [whole])
      (Nat.le_of_succ_le_succ enough) step

theorem gcDecref_decreased (counted : Counted children outside s) :
    Decreased outside s.gcObjList s.gcObjList [] (gcDecref children s) := by
  refine decrefLoop_decreased counted.closed counted.nodup _ [] s.gcObjList rfl (Nat.le_refl _) ?_
  exact ⟨counted.counts, by simpa using counted.unmarked, ⟨by simp, by simp, List.nodup_nil⟩, counted.sound⟩

end Decref

section Scan

variable {ν : Type} {objects gc tmp : List ν} {idle : ν → Prop}

structure Parted (objects : List ν) (idle : ν → Prop) (gc tmp : List ν) : Prop where
  kept : ∀ p, p ∈ gc ↔ p ∈ objects ∧ ¬ idle p
  moved : ∀ p, p ∈ tmp ↔ p ∈ objects ∧ idle p
  keptNodup : gc.Nodup
  movedNodup : tmp.Nodup

theorem Parted.congr {idle' : ν → Prop} (parted : Parted objects idle gc tmp)
    (same : ∀ p ∈ objects, idle p ↔ idle' p) : Parted objects idle' gc tmp where
  kept p := by
    rw [parted.kept]
    exact and_congr_right fun member => not_congr (same p member)
  moved p := by
    rw [parted.moved]
    exact and_congr_right (same p)
  keptNodup := parted.keptNodup
  movedNodup := parted.movedNodup

theorem Parted.perm (parted : Parted objects idle gc tmp) (distinct : objects.Nodup) : (gc ++ tmp).Perm objects := by
  have apart : ∀ p ∈ gc, ∀ q ∈ tmp, p ≠ q := by
    rintro p inGc q inTmp rfl
    exact ((parted.kept p).mp inGc).2 ((parted.moved p).mp inTmp).2
  have both : (gc ++ tmp).Nodup := List.nodup_append.mpr ⟨parted.keptNodup, parted.movedNodup, apart⟩
  refine (List.perm_ext_iff_of_nodup both distinct).mpr fun p => ?_
  rw [List.mem_append, parted.kept, parted.moved]
  tauto

theorem Placed.parted {idle : ν → Bool} (placed : Placed objects idle gc tmp) (distinct : objects.Nodup) :
    Parted objects (fun p => idle p = true) gc tmp where
  kept p := by simp [placed.kept]
  moved := placed.moved
  keptNodup := by
    rw [placed.kept]
    exact distinct.filter _
  movedNodup := placed.nodup

variable [DecidableEq ν]

theorem Parted.move {c : ν} (parted : Parted objects idle gc tmp) (member : c ∈ objects) (isIdle : idle c) :
    Parted objects (fun p => idle p ∧ p ≠ c) (gc.erase c ++ [c]) (tmp.erase c) := by
  have absent : c ∉ gc := fun inGc => ((parted.kept c).mp inGc).2 isIdle
  rw [List.erase_of_not_mem absent]
  constructor
  · intro p
    rw [List.mem_append, parted.kept]
    by_cases isC : p = c <;> simp [isC, member]
  · intro p
    rw [parted.movedNodup.mem_erase_iff, parted.moved]
    tauto
  · rw [← List.concat_eq_append]
    exact parted.keptNodup.concat absent
  · exact parted.movedNodup.erase c

variable {s : State ν} {children : ν → List ν} {outside : ν → Nat} {passed given : List ν}

/-- The references `given` are counted again, and `passed` is the part of `gc_obj_list` behind the loop. -/
structure Scanned (children : ν → List ν) (outside : ν → Nat) (objects passed given : List ν) (s : State ν) : Prop where
  counts : ∀ p ∈ objects, s.refCount p = outside p + given.count p
  parted : Parted objects (fun p => s.refCount p = 0) s.gcObjList s.tmpObjList
  reached : ∀ p ∈ s.gcObjList, Reached children outside objects p
  marks : ∀ p ∈ passed, s.mark p = false
  sound : s.failed = false

theorem Decreased.scanned (inv : Decreased outside objects objects [] s) (distinct : objects.Nodup) :
    Scanned children outside objects [] [] s := by
  have parted : Parted objects (fun p => s.refCount p = 0) s.gcObjList s.tmpObjList :=
    (inv.placed.parted distinct).congr fun p member => by simp [member]
  refine ⟨inv.counts, parted, fun p member => ?_, by simp, inv.sound⟩
  obtain ⟨inObjects, alive⟩ := (parted.kept p).mp member
  have count : s.refCount p = outside p := by simpa using inv.counts p inObjects
  refine ⟨p, inObjects, ?_, .refl⟩
  omega

theorem Scanned.child {c : ν} (inv : Scanned children outside objects passed given s)
    (member : c ∈ objects) (reached : Reached children outside objects c) :
    Scanned children outside objects passed (given ++ [c]) (gcScanIncrefChild s c) ∧
      s.gcObjList <+: (gcScanIncrefChild s c).gcObjList := by
  have before := inv.counts c member
  have counts : ∀ p ∈ objects,
      Function.update s.refCount c (s.refCount c + 1) p = outside p + (given ++ [c]).count p := by
    intro p inObjects
    by_cases isC : p = c
    · subst isC
      simp [inv.counts p inObjects]
      omega
    · simp [isC, inv.counts p inObjects, Ne.symm isC]
  simp only [gcScanIncrefChild, State.count, Function.update_self]
  split
  · next first =>
    have zero : s.refCount c = 0 := by omega
    have moved := inv.parted.move member zero
    have notKept : c ∉ s.gcObjList := fun inGc => ((inv.parted.kept c).mp inGc).2 zero
    refine ⟨⟨counts, moved.congr fun p _ => ?_, ?_, ?_, inv.sound⟩, ?_⟩
    · by_cases isC : p = c
      · simp [isC, first, State.setMark, State.toGc, State.listDel]
      · simp [isC, State.setMark, State.toGc, State.listDel]
    · intro p inGc
      simp only [State.setMark, State.toGc, State.listDel, List.erase_of_not_mem notKept, List.mem_append,
        List.mem_singleton] at inGc
      rcases inGc with old | rfl
      · exact inv.reached p old
      · exact reached
    · intro p behind
      by_cases isC : p = c
      · simp [isC, State.setMark]
      · simp [isC, State.setMark, State.toGc, State.listDel, inv.marks p behind]
    · simp [State.setMark, State.toGc, State.listDel, List.erase_of_not_mem notKept]
  · next more =>
    refine ⟨⟨counts, inv.parted.congr fun p _ => ?_, inv.reached, inv.marks, inv.sound⟩, List.prefix_refl _⟩
    by_cases isC : p = c
    · subst isC
      simp only [Function.update_self]
      omega
    · simp [isC]

theorem Scanned.foldl : (refs : List ν) → {given : List ν} → {s : State ν} →
    (∀ c ∈ refs, c ∈ objects ∧ Reached children outside objects c) →
    Scanned children outside objects passed given s →
    Scanned children outside objects passed (given ++ refs) (refs.foldl gcScanIncrefChild s) ∧
      s.gcObjList <+: (refs.foldl gcScanIncrefChild s).gcObjList
  | [], _, _, _, inv => ⟨by simpa using inv, List.prefix_refl _⟩
  | c :: refs, given, s, members, inv => by
    obtain ⟨inObjects, reached⟩ := members c List.mem_cons_self
    obtain ⟨first, grown⟩ := inv.child inObjects reached
    obtain ⟨later, further⟩ := Scanned.foldl refs (fun d inRefs => members d (List.mem_cons_of_mem c inRefs)) first
    refine ⟨?_, grown.trans further⟩
    simpa using later

theorem Scanned.object {p : ν} (closed : ∀ p ∈ objects, ∀ c ∈ children p, c ∈ objects)
    (inv : Scanned children outside objects passed given s) (member : p ∈ s.gcObjList) :
    Scanned children outside objects (passed ++ [p]) (given ++ children p) (gcScanObject children s p) ∧
      s.gcObjList <+: (gcScanObject children s p).gcObjList := by
  obtain ⟨inObjects, alive⟩ := (inv.parted.kept p).mp member
  have positive : 0 < s.refCount p := by
    have count := inv.counts p inObjects
    omega
  have start : Scanned children outside objects (passed ++ [p]) given
      ((s.check (0 < s.refCount p)).setMark p false) := by
    refine ⟨inv.counts, inv.parted, inv.reached, fun q behind => ?_, ?_⟩
    · by_cases isP : q = p
      · simp [isP, State.setMark]
      · have early : q ∈ passed := by simpa [isP] using behind
        simp [isP, State.setMark, State.check, inv.marks q early]
    · simp [State.setMark, State.check, inv.sound, positive]
  exact start.foldl (children p) fun c owned =>
    ⟨closed p inObjects c owned, (inv.reached p member).child owned⟩

theorem scanLoop_scanned (closed : ∀ p ∈ objects, ∀ c ∈ children p, c ∈ objects) (distinct : objects.Nodup) :
    (fuel : Nat) → (passed rest : List ν) → {s : State ν} → s.gcObjList = passed ++ rest →
    objects.length ≤ fuel + passed.length → Scanned children outside objects passed (passed.flatMap children) s →
    ∃ final, scanLoop children fuel s rest.head? = final ∧
      Scanned children outside objects final.gcObjList (final.gcObjList.flatMap children) final
  | fuel, passed, [], s, whole, _, inv => by
    have same : scanLoop children fuel s none = s := by cases fuel <;> rfl
    rw [List.append_nil] at whole
    refine ⟨s, same, ?_⟩
    rwa [whole]
  | 0, passed, p :: rest, s, whole, enough, inv => by
    have size := (inv.parted.perm distinct).length_eq
    simp [whole] at size
    omega
  | fuel + 1, passed, p :: rest, s, whole, enough, inv => by
    have member : p ∈ s.gcObjList := by simp [whole]
    obtain ⟨step, more, grown⟩ := inv.object closed member
    have nodup := step.parted.keptNodup
    rw [whole] at grown
    have cut : (gcScanObject children s p).gcObjList = passed ++ p :: (rest ++ more) := by simp [← grown]
    have new : p ∉ passed := by
      rw [cut] at nodup
      exact fun early => (List.nodup_append.mp nodup).2.2 p early p List.mem_cons_self rfl
    have following : next (gcScanObject children s p).gcObjList p = (rest ++ more).head? := by
      rw [cut]
      exact next_append new
    have size : objects.length ≤ fuel + (passed ++ [p]).length := by
      rw [List.length_append, List.length_singleton]
      omega
    rw [List.append_cons] at cut
    rw [List.head?_cons, scanLoop, following]
    exact scanLoop_scanned closed distinct fuel (passed ++ [p]) (rest ++ more) cut size (by simpa using step)

end Scan

section Restore

variable {ν : Type} [DecidableEq ν] {children : ν → List ν} {outside : ν → Nat} {objects : List ν}

theorem incref2_foldl : (refs : List ν) → (s : State ν) →
    ((refs.foldl gcScanIncrefChild2 s) = { s with refCount := fun p => s.refCount p + refs.count p })
  | [], s => by simp
  | c :: refs, s => by
    rw [List.foldl_cons, incref2_foldl refs]
    simp only [gcScanIncrefChild2, State.count, State.mk.injEq, and_true]
    funext p
    by_cases isC : p = c
    · subst isC
      simp
      omega
    · simp [isC, Ne.symm isC]

theorem restore_foldl : (rest : List ν) → (s : State ν) →
    rest.foldl (fun s p => (children p).foldl gcScanIncrefChild2 s) s =
      { s with refCount := fun p => s.refCount p + (rest.flatMap children).count p }
  | [], s => by simp
  | q :: rest, s => by
    rw [List.foldl_cons, incref2_foldl, restore_foldl rest]
    simp only [State.mk.injEq, and_true]
    funext p
    simp
    omega

theorem Scanned.kept_iff {s : State ν} (closed : ∀ p ∈ objects, ∀ c ∈ children p, c ∈ objects)
    (inv : Scanned children outside objects s.gcObjList (s.gcObjList.flatMap children) s) (p : ν) :
    p ∈ s.gcObjList ↔ p ∈ objects ∧ Reached children outside objects p := by
  constructor
  · intro member
    exact ⟨((inv.parted.kept p).mp member).1, inv.reached p member⟩
  · rintro ⟨-, root, inObjects, held, path⟩
    induction path with
    | refl =>
      have count := inv.counts root inObjects
      exact (inv.parted.kept root).mpr ⟨inObjects, by omega⟩
    | @tail owner child _ owned kept =>
      have childIn := closed owner ((inv.parted.kept owner).mp kept).1 child owned
      have given : 0 < (s.gcObjList.flatMap children).count child :=
        List.count_pos_iff.mpr (List.mem_flatMap.mpr ⟨owner, kept, owned⟩)
      have count := inv.counts child childIn
      exact (inv.parted.kept child).mpr ⟨childIn, by omega⟩

/-- The two passes part what a reference from outside leads to from what only its own cycles hold, and leave every
count as it was. -/
theorem gcScan_separated (s : State ν) (counted : Counted children outside s) :
    Separated children outside s (gcScan children (gcDecref children s)) := by
  have decreased := gcDecref_decreased counted
  have started : Scanned children outside s.gcObjList [] [] (gcDecref children s) := decreased.scanned counted.nodup
  have enough : s.gcObjList.length ≤
      (gcDecref children s).gcObjList.length + (gcDecref children s).tmpObjList.length + ([] : List ν).length := by
    rw [← List.length_append, (started.parted.perm counted.nodup).length_eq]
    exact Nat.le_refl _
  obtain ⟨final, loop, inv⟩ :=
    scanLoop_scanned counted.closed counted.nodup _ [] (gcDecref children s).gcObjList rfl enough started
  have kept := inv.kept_iff counted.closed
  have perm := inv.parted.perm counted.nodup
  have after : gcScan children (gcDecref children s) =
      { final with refCount := fun p => final.refCount p + (final.tmpObjList.flatMap children).count p } := by
    simp only [gcScan, loop, restore_foldl]
  rw [after]
  refine ⟨inv.sound, kept, fun p => ?_, perm, fun p member => ?_, inv.marks⟩
  · have alive := inv.parted.kept p
    have reached := kept p
    rw [inv.parted.moved p]
    tauto
  · have whole := (perm.flatMap_right children).count_eq p
    rw [List.flatMap_append, List.count_append] at whole
    have scanned := inv.counts p member
    rw [counted.counts p member]
    change final.refCount p + _ = _
    omega

end Restore

end Sano.Runtime.Collector
