import Sano.Render.Registry
import Sano.Render.Routing

namespace Sano.Render

section Tasks

structure Schedules (s t : Store) : Prop where
  longer : s.heap.length ≤ t.heap.length
  tasks : ∃ more, t.scheduled = s.scheduled ++ more ∧ more.Nodup ∧ ∀ b ∈ more, s.heap.length ≤ b ∧ b < t.heap.length
  builders : t.builders.map Builder.element = s.builders.map Builder.element

variable {s t u : Store}

theorem schedules_of_eq (length : t.heap.length = s.heap.length) (scheduled : t.scheduled = s.scheduled)
    (builders : t.builders.map Builder.element = s.builders.map Builder.element) : Schedules s t :=
  ⟨Nat.le_of_eq length.symm, ⟨[], by simp [scheduled], List.nodup_nil, by simp⟩, builders⟩

theorem Schedules.trans (first : Schedules s t) (second : Schedules t u) : Schedules s u := by
  obtain ⟨more, scheduled, once, new⟩ := first.tasks
  obtain ⟨more', scheduled', once', new'⟩ := second.tasks
  have longer := first.longer
  have longer' := second.longer
  refine ⟨by omega, ⟨more ++ more', ?_, ?_, fun b member => ?_⟩, second.builders.trans first.builders⟩
  · rw [scheduled', scheduled, List.append_assoc]
  · refine once.append once' fun b early late => ?_
    have below := (new b early).2
    have above := (new' b late).1
    omega
  · rcases List.mem_append.mp member with early | late
    · have := new b early
      omega
    · have := new' b late
      omega

instance : Std.Refl Schedules := ⟨fun _ => schedules_of_eq rfl rfl rfl⟩

instance : IsTrans Store Schedules := ⟨fun _ _ _ => Schedules.trans⟩

theorem schedules_alloc (s : Store) (el : Element) : Schedules s { s with heap := s.heap ++ [el] } :=
  ⟨by simp, ⟨[], by simp, List.nodup_nil, by simp⟩, rfl⟩

/-- The end of a constructor: what was made meanwhile is above the object, which gets its task last. -/
theorem Schedules.finish {el : Element} (made : Schedules { s with heap := s.heap ++ [el] } t)
    (change : Element → Element) :
    Schedules s { t.modify s.heap.length change with scheduled := t.scheduled ++ [s.heap.length] } := by
  obtain ⟨more, scheduled, once, new⟩ := made.tasks
  have longer := made.longer
  simp only [List.length_append, List.length_singleton] at new longer
  refine ⟨?_, ⟨more ++ [s.heap.length], ?_, ?_, fun b member => ?_⟩, made.builders⟩
  · rw [modify_heap_length]
    omega
  · rw [scheduled, List.append_assoc]
  · refine once.append (List.nodup_singleton _) fun b early late => ?_
    have above := (new b early).1
    have here := List.mem_singleton.mp late
    omega
  · rw [modify_heap_length]
    rcases List.mem_append.mp member with early | late
    · have := new b early
      omega
    · have here := List.mem_singleton.mp late
      omega

theorem cast_schedules {α β : Type} {value : Option α} {next : α → Dart β}
    (present : ∀ v, value = some v → Advances Schedules (next v)) : Advances Schedules (cast value >>= next) :=
  fun s => ends_cast (fun v held => present v held s) fun _ => refl_of Schedules s

theorem modify_schedules (a : Nat) (change : Element → Element) : Advances Schedules (modifyElement a change) :=
  fun s => schedules_of_eq (modify_heap_length s a change) rfl rfl

theorem read_schedules (a : Nat) : Advances Schedules (read a) := by
  intro s
  unfold Ends read
  cases s.heap[a]? with
  | none => exact refl_of Schedules s
  | some el => exact refl_of Schedules s

theorem setNotifier_schedules (a : Nat) (value : Int) : Advances Schedules (setNotifier a value) := by
  intro s
  cases found : s.heap[a]? with
  | none => simpa [Ends, setNotifier, found] using refl_of Schedules s
  | some el =>
    unfold Ends
    rw [setNotifier_eq found]
    have repainted := Repainted.notify s a value
    exact schedules_of_eq repainted.length repainted.scheduled repainted.builders

def Tasking (create : Object → Nat → Dart Nat) (object : Object) : Prop :=
  ∀ parent, Advances Schedules (create object parent)

theorem items_schedule {create : Object → Nat → Dart Nat} {items : List Json}
    (each : ∀ item ∈ items, ∀ object, item.asMap = some object → Tasking create object) (parent : Nat) :
    Advances Schedules (items.mapM (createItem create parent)) := by
  refine Advances.mapM fun item member => ?_
  exact cast_schedules fun object cast => each item member object cast parent

theorem sanoElement_schedules {create : Object → Nat → Dart Nat} {renderObject : Object}
    (below : ∀ object : Object, object.depth < renderObject.depth → Tasking create object) (kind : Kind)
    (parent : Option Nat) : Advances Schedules (sanoElement create kind renderObject parent) := by
  intro s
  unfold sanoElement
  refine ends_cast ?_ fun _ => refl_of Schedules s
  intro id _
  refine ends_cast ?_ fun _ => refl_of Schedules s
  intro tag _
  refine ends_cast ?_ fun _ => refl_of Schedules s
  intro props _
  refine ends_cast ?_ fun _ => refl_of Schedules s
  intro events _
  let el : Element := { kind, id, tag, props := props.getD ∅, events, parent }
  have allocated := schedules_alloc s el
  apply Ends.bind
  show Ends _ { s with heap := s.heap ++ [el] } _ _
  refine ends_cast ?_ fun _ => allocated
  intro items hasItems
  cases items with
  | none => exact (refl_of Schedules { s with heap := s.heap ++ [el] }).finish (.withChildren none)
  | some items =>
    have each (item : Json) (member : item ∈ items) (object : Object) (cast : item.asMap = some object) :
        Tasking create object := below object (item_depth (asList_of_asListOrNull hasItems) member cast)
    apply Ends.bind
    apply (items_schedule each s.heap.length _).mono
    · intro kids t made
      exact made.finish (.withChildren (some kids))
    · exact fun _ t made => allocated.trans made

theorem floatingActionButtonBuilder_schedules (self element : Nat) :
    Advances Schedules (floatingActionButtonBuilder self element) := by
  refine (read_schedules element).bind fun source => ?_
  split
  · exact modify_schedules self _
  · exact Advances.throw Error.rangeError
  · exact modify_schedules self _

theorem initSlots_schedule {create : Object → Nat → Dart Nat} {renderObject : Object}
    (below : ∀ object : Object, object.depth < renderObject.depth → Tasking create object) (self : Nat) :
    Advances Schedules (initSlots create renderObject self) := by
  rw [initSlots_eq]
  unfold initSlot
  split
  · refine cast_schedules fun object cast => ?_
    have lower : object.depth < renderObject.depth :=
      Nat.lt_of_lt_of_le (asMap_depth cast) (field_depth renderObject _)
    refine (sanoElement_schedules (fun inner small => below inner (Nat.lt_trans small lower)) .fragment _).bind
      fun element => ?_
    exact (modify_schedules self _).bind fun _ => floatingActionButtonBuilder_schedules self element
  · exact Advances.pure ()

theorem createNodeElement_schedules (object : Object) : Tasking createNodeElement object := by
  generalize bound : object.depth = n
  induction n using Nat.strongRecOn generalizing object with
  | ind n ih =>
    have below (inner : Object) (small : inner.depth < object.depth) : Tasking createNodeElement inner :=
      ih inner.depth (by omega) inner rfl
    intro parent
    rw [createNodeElement_eq]
    unfold createStep
    refine cast_schedules fun tag _ => ?_
    split
    · refine (sanoElement_schedules below .scaffold _).bind fun self => ?_
      exact (initSlots_schedule below self).bind fun _ => Advances.pure self
    · exact sanoElement_schedules below .element _

theorem rootElement_schedules (payload : Json) (channel : String) :
    Advances Schedules (rootElement payload channel) :=
  cast_schedules fun _ _ => sanoElement_schedules (fun object _ => createNodeElement_schedules object) .root none

theorem children_schedule (items : List Json) (self : Nat) {next : List Nat → Dart Unit}
    (after : ∀ children, Advances Schedules (next children)) :
    Advances Schedules (items.mapM (createItem createNodeElement self) >>= next) :=
  (items_schedule (fun _ _ object _ => createNodeElement_schedules object) self).bind after

theorem sanoUpdate_schedules (self : Nat) (renderObject : Object) (now : Int) :
    Advances Schedules (sanoUpdate self renderObject now) := by
  refine Advances.bind (Advances.forM fun key _ => ?_) fun _ => setNotifier_schedules self now
  unfold updateKey
  split
  · exact cast_schedules fun items _ => children_schedule items self fun _ => modify_schedules self _
  · split
    · exact cast_schedules fun props _ => modify_schedules self _
    · exact Advances.pure ()

theorem fillSlot_schedules (self holder : Nat) (tag : String) : Advances Schedules (fillSlot self holder tag) := by
  rw [fillSlot_eq]
  split
  · exact floatingActionButtonBuilder_schedules holder self
  · exact Advances.pure ()

theorem fragmentUpdate_schedules (self : Nat) (renderObject : Object) (now : Int) :
    Advances Schedules (fragmentUpdate self renderObject now) := by
  refine cast_schedules fun items _ => children_schedule items self fun children => ?_
  refine (modify_schedules self _).bind fun _ => (read_schedules self).bind fun el => ?_
  split
  · exact Advances.pure ()
  · refine (read_schedules _).bind fun parent => ?_
    split
    · exact (fillSlot_schedules self _ el.tag).bind fun _ => setNotifier_schedules _ now
    · exact Advances.pure ()

theorem emit_schedules (listeners : LinkedMap String Nat) (id : String) (value : Json) (now : Int) :
    Advances Schedules (emit listeners id value now) := by
  refine cast_schedules fun renderObject _ => ?_
  split
  · refine (read_schedules _).bind fun el => ?_
    split
    · exact fragmentUpdate_schedules _ renderObject now
    · exact sanoUpdate_schedules _ renderObject now
  · exact Advances.pure ()

theorem emitAll_schedules (listeners : LinkedMap String Nat) (entries : List (String × Json)) (clock : Nat → Int) :
    Advances Schedules (emitAll listeners entries clock) := by
  induction entries generalizing clock with
  | nil => exact Advances.pure ()
  | cons entry rest ih => exact (emit_schedules listeners entry.1 entry.2 (clock 0)).bind fun _ => ih _

theorem Schedules.nodup (schedules : Schedules s t) (wf : WellFormed s) (once : s.scheduled.Nodup) :
    t.scheduled.Nodup := by
  obtain ⟨more, scheduled, new, above⟩ := schedules.tasks
  rw [scheduled]
  refine once.append new fun b early late => ?_
  have below := wf.scheduled b early
  have later := (above b late).1
  omega

end Tasks

section Calls

structure Notified (κ : Type) where
  world : World := {}
  attached : Nat → List κ := fun _ => []

/-- The frames are taken apart into the calls that they make: a builder adds its listener
    when it is mounted, and removes it when it is dropped. -/
inductive Move (κ : Type) where
  | mount (page : String) (payload : Json)
  | update (page : String) (data : Json) (clock : Nat → Int)
  | task
  | addListener (e : Nat) (listener : κ)
  | removeListener (e : Nat) (listener : κ)
  | build (e : Nat)
  | painted

inductive Call (κ : Type) where
  | add (listener : κ)
  | remove (listener : κ)

variable {κ : Type} [DecidableEq κ]

namespace Notified

def addListener (n : Notified κ) (e : Nat) (listener : κ) : Notified κ where
  world := n.world.frameOp (.attach e)
  attached := Function.update n.attached e (n.attached e ++ [listener])

def removeListener (n : Notified κ) (e : Nat) (listener : κ) : Notified κ :=
  let world := n.world.deregister e
  { world := if listener ∈ n.attached e then { world with store := world.store.detach e } else world
    attached := Function.update n.attached e ((n.attached e).erase listener) }

def step (n : Notified κ) : Move κ → Notified κ
  | .mount page payload => { n with world := n.world.mount page payload }
  | .update page data clock => { n with world := n.world.update page data clock }
  | .task => { n with world := n.world.task }
  | .addListener e listener => n.addListener e listener
  | .removeListener e listener => n.removeListener e listener
  | .build e => { n with world := n.world.frameOp (.build e) }
  | .painted => { n with world := { n.world with rebuild := false } }

def run : List (Move κ) → Notified κ := Run.final step {}

end Notified

def World.next (w : World) : Option Nat := w.store.scheduled[w.ran]?

def World.entry (w : World) (e : Nat) : Option Nat := do
  let el ← w.store.heap[e]?
  let root ← rootOf w.store.heap e
  (w.listeners root).get? el.id

def World.Unshared (w : World) (e : Nat) : Prop :=
  ∀ a < w.store.heap.length, a ≠ e → rootOf w.store.heap a = rootOf w.store.heap e → w.idOf a ≠ w.idOf e

def Move.on (e : Nat) : Move κ → Option (Call κ)
  | .addListener a listener => if a = e then some (.add listener) else none
  | .removeListener a listener => if a = e then some (.remove listener) else none
  | _ => none

def Call.move (e : Nat) : Call κ → Move κ
  | .add listener => .addListener e listener
  | .remove listener => .removeListener e listener

def Call.isAdd : Call κ → Bool
  | .add _ => true
  | .remove _ => false

def Kept (attached : List κ) : List (Call κ) → Prop
  | [] => True
  | .add listener :: rest => Kept (attached ++ [listener]) rest
  | .remove listener :: rest => attached.erase listener = [] ∧ ∀ call ∈ rest, call.isAdd = false

instance (w : World) (e : Nat) : Decidable (w.Unshared e) :=
  inferInstanceAs (Decidable (∀ a < w.store.heap.length, _))

instance decidableKept : (attached : List κ) → (calls : List (Call κ)) → Decidable (Kept attached calls)
  | _, [] => isTrue trivial
  | attached, .add listener :: rest => decidableKept (attached ++ [listener]) rest
  | attached, .remove listener :: rest =>
    inferInstanceAs (Decidable (attached.erase listener = [] ∧ ∀ call ∈ rest, call.isAdd = false))

end Calls

section Steps

structure Continues (w v : World) : Prop where
  sound : v.Sound
  evolves : Evolves w.store v.store
  once : w.store.scheduled.Nodup → v.store.scheduled.Nodup
  ran : w.ran ≤ v.ran

variable {w v u : World} {e : Nat}

theorem Continues.trans (first : Continues w v) (second : Continues v u) : Continues w u :=
  ⟨second.sound, first.evolves.trans second.evolves, fun once => second.once (first.once once),
    Nat.le_trans first.ran second.ran⟩

theorem mount_schedules (w : World) (page : String) (payload : Json) :
    Schedules w.store (w.mount page payload).store := by
  have ends := rootElement_schedules payload (World.channelName page) w.store
  unfold World.mount
  split
  · exact refl_of Schedules w.store
  · split
    · rename_i made
      exact ends.ok made
    · rename_i failed
      exact ends.error failed

theorem update_schedules (w : World) (page : String) (data : Json) (clock : Nat → Int) :
    Schedules w.store (w.update page data clock).store := by
  unfold World.update
  split
  · exact Ends.final (emitAll_schedules _ _ clock w.store)
  · exact refl_of Schedules w.store

theorem mount_rest (sound : w.Sound) (page : String) (payload : Json) :
    Evolves w.store (w.mount page payload).store ∧ (w.mount page payload).ran = w.ran ∧
      (w.mount page payload).listeners = w.listeners := by
  have ends := rootElement_ends payload (World.channelName page) w.store sound.wf
  unfold World.mount
  split
  · exact ⟨.refl sound.wf, rfl, rfl⟩
  · split
    · rename_i made
      have built := (ends.ok made).1
      exact ⟨built.grown.evolves built.wf, rfl, rfl⟩
    · rename_i failed
      obtain ⟨grown, wf, _⟩ := ends.error failed
      exact ⟨grown.evolves wf, rfl, rfl⟩

theorem mount_continues (sound : w.Sound) (page : String) (payload : Json) : Continues w (w.mount page payload) := by
  obtain ⟨evolves, ran, _⟩ := mount_rest sound page payload
  exact ⟨sound.mount page payload, evolves, (mount_schedules w page payload).nodup sound.wf, Nat.le_of_eq ran.symm⟩

theorem update_continues (sound : w.Sound) (page : String) (data : Json) (clock : Nat → Int) :
    Continues w (w.update page data clock) := by
  obtain ⟨evolves, ran, _⟩ := World.update_store sound.wf page data clock
  exact ⟨sound.update page data clock, evolves, (update_schedules w page data clock).nodup sound.wf,
    Nat.le_of_eq ran.symm⟩

/-- Only the registry, the builders or the count of the tasks change. -/
theorem continues_of_eq (after : v.Sound) (heap : v.store.heap = w.store.heap)
    (scheduled : v.store.scheduled = w.store.scheduled) (ran : w.ran ≤ v.ran) : Continues w v := by
  refine ⟨after, ⟨after.wf, ?_, ?_, ?_, ?_⟩, ?_, ran⟩
  · exact Nat.le_of_eq (congrArg List.length heap).symm
  · exact scheduled ▸ List.prefix_refl _
  · intro b task
    rw [scheduled] at task
    exact .inl task
  · intro a el found
    rw [heap]
    exact ⟨el, found, rfl, rfl, rfl, rfl, fun _ member => .inl member⟩
  · rw [scheduled]
    exact id

theorem task_rest (w : World) : w.task.store = w.store ∧ w.ran ≤ w.task.ran := by
  obtain ⟨_, same⟩ | ⟨_, _, _, _, same, _⟩ := w.task_cases
  · rw [same]
    exact ⟨rfl, Nat.le_refl _⟩
  · rw [same]
    exact ⟨rfl, Nat.le_succ _⟩

theorem task_continues (sound : w.Sound) : Continues w w.task := by
  obtain ⟨store, ran⟩ := task_rest w
  exact continues_of_eq sound.task (by rw [store]) (by rw [store]) ran

theorem frameOp_continues (sound : w.Sound) (op : FrameOp) : Continues w (w.frameOp op) := by
  obtain ⟨store, ran, _⟩ := World.frameOp_rest w op
  exact continues_of_eq (sound.frameOp op) (by rw [store, frameOp_heap]) (by rw [store, frameOp_scheduled])
    (Nat.le_of_eq ran.symm)

theorem deregister_continues (sound : w.Sound) (e : Nat) : Continues w (w.deregister e) := by
  obtain ⟨store, ran, _⟩ := World.deregister_rest w e
  exact continues_of_eq (sound.deregister e) (by rw [store]) (by rw [store]) (Nat.le_of_eq ran.symm)

end Steps

section Entries

variable {w v : World} {e a : Nat}

theorem entry_eq {el : Element} {root : Nat} (found : w.store.heap[e]? = some el)
    (reaches : rootOf w.store.heap e = some root) : w.entry e = (w.listeners root).get? el.id := by
  simp [World.entry, found, reaches]

theorem key_exists (wf : WellFormed w.store) (bound : e < w.store.heap.length) :
    ∃ el root, w.store.heap[e]? = some el ∧ rootOf w.store.heap e = some root := by
  obtain ⟨root, climbs⟩ := climbs_total wf e bound
  exact ⟨_, root, List.getElem?_eq_getElem bound, climbs.rootOf wf⟩

theorem Continues.entry (continues : Continues w v) (wf : WellFormed w.store) (bound : e < w.store.heap.length)
    (listeners : v.listeners = w.listeners) : v.entry e = w.entry e := by
  obtain ⟨el, root, found, reaches⟩ := key_exists wf bound
  obtain ⟨el', found', kept⟩ := continues.evolves.cells e el found
  have reaches' := continues.evolves.rootOf wf e bound
  rw [entry_eq found' (reaches'.trans reaches), entry_eq found reaches, listeners, kept.id]

/-- The entry of `e`, once the listeners at the key of `a` are replaced. -/
theorem entry_replaced {value : Option Nat} {ran : Nat} {listeners : Nat → LinkedMap String Nat}
    (wf : WellFormed w.store) (bound : e < w.store.heap.length) (unshared : a ≠ e → w.Unshared e)
    (get : ∀ root id, (listeners root).get? id = if w.Bears a root id then value else (w.listeners root).get? id) :
    World.entry { w with ran, listeners } e = if a = e then value else w.entry e := by
  obtain ⟨el, root, found, reaches⟩ := key_exists wf bound
  rw [entry_eq found reaches, entry_eq (w := { w with ran, listeners }) found reaches, get]
  by_cases own : a = e
  · subst own
    rw [if_pos ⟨reaches, by simp [found]⟩, if_pos rfl]
  · have apart : ¬ w.Bears a root el.id := by
      rintro ⟨same, named⟩
      obtain ⟨x, held, _⟩ := Option.map_eq_some_iff.mp named
      refine unshared own a (List.getElem?_eq_some_iff.mp held).1 own (same.trans reaches.symm) ?_
      rw [World.idOf, named, World.idOf, found, Option.map_some]
    rw [if_neg apart, if_neg own]

theorem deregister_entry (wf : WellFormed w.store) (bound : e < w.store.heap.length)
    (unshared : a ≠ e → w.Unshared e) : (w.deregister a).entry e = if a = e then none else w.entry e := by
  obtain ⟨listeners, same, get⟩ := w.deregister_spec a
  rw [same]
  exact entry_replaced wf bound unshared get

theorem on_call {κ : Type} {move : Move κ} {call : Call κ} (made : move.on e = some call) : move = call.move e := by
  cases move with
  | addListener a listener =>
    simp only [Move.on, Option.ite_none_right_eq_some, Option.some.injEq] at made
    obtain ⟨rfl, rfl⟩ := made
    rfl
  | removeListener a listener =>
    simp only [Move.on, Option.ite_none_right_eq_some, Option.some.injEq] at made
    obtain ⟨rfl, rfl⟩ := made
    rfl
  | _ => cases made

theorem attached_added {κ : Type} (n : Notified κ) (e : Nat) (listener : κ) :
    (n.addListener e listener).attached e = n.attached e ++ [listener] := Function.update_self e _ _

end Entries

section Runs

def World.Served (w : World) (e : Nat) : Prop := e ∈ w.store.scheduled.take w.ran

structure Ready (w : World) (e : Nat) : Prop where
  sound : w.Sound
  once : w.store.scheduled.Nodup
  served : w.Served e

variable {w v : World} {e : Nat}

theorem Ready.bound (ready : Ready w e) : e < w.store.heap.length :=
  ready.sound.wf.scheduled e (List.mem_of_mem_take ready.served)

theorem Continues.served (continues : Continues w v) (served : w.Served e) : v.Served e := by
  have longer : w.store.scheduled.take w.ran <+: v.store.scheduled.take v.ran := by
    rw [List.prefix_take_iff]
    refine ⟨(List.take_prefix _ _).trans continues.evolves.tasks, ?_⟩
    have := continues.ran
    rw [List.length_take]
    omega
  exact longer.subset served

theorem served_next (once : w.store.scheduled.Nodup) (served : w.Served e) : w.next ≠ some e := by
  intro next
  have later : e ∈ w.store.scheduled.drop w.ran := by
    obtain ⟨bound, here⟩ := List.getElem?_eq_some_iff.mp next
    rw [List.drop_eq_getElem_cons bound, here]
    exact List.mem_cons_self
  rw [← List.take_append_drop w.ran w.store.scheduled] at once
  exact (List.disjoint_of_nodup_append once) served later

theorem detach_continues (sound : w.Sound) (e : Nat) : Continues w { w with store := w.store.detach e } :=
  continues_of_eq (sound.evolve (World.frameOp_evolves sound.wf (.detach e)) rfl rfl fun _ _ held => .inl held) rfl rfl
    (Nat.le_refl _)

theorem Continues.unshared (continues : Continues w v) (wf : WellFormed w.store) (bound : e < w.store.heap.length)
    (unshared : v.Unshared e) : w.Unshared e := by
  have ids (a : Nat) (inside : a < w.store.heap.length) : v.idOf a = w.idOf a := by
    obtain ⟨el, found⟩ : ∃ el, w.store.heap[a]? = some el := ⟨_, List.getElem?_eq_getElem inside⟩
    obtain ⟨el', found', kept⟩ := continues.evolves.cells a el found
    simp [World.idOf, found, found', kept.id]
  have roots (a : Nat) (inside : a < w.store.heap.length) : rootOf v.store.heap a = rootOf w.store.heap a :=
    continues.evolves.rootOf wf a inside
  intro a inside other same
  rw [← ids a inside, ← ids e bound]
  apply unshared a (Nat.lt_of_lt_of_le inside continues.evolves.longer) other
  rw [roots a inside, roots e bound, same]

variable {κ : Type} [DecidableEq κ] {n : Notified κ}

theorem step_continues (sound : n.world.Sound) (move : Move κ) : Continues n.world (n.step move).world := by
  cases move with
  | mount page payload => exact mount_continues sound page payload
  | update page data clock => exact update_continues sound page data clock
  | task => exact task_continues sound
  | addListener a listener => exact frameOp_continues sound (.attach a)
  | removeListener a listener =>
    have off := deregister_continues sound a
    unfold Notified.step Notified.removeListener
    simp only
    split
    · exact off.trans (detach_continues off.sound a)
    · exact off
  | build a => exact frameOp_continues sound (.build a)
  | painted => exact continues_of_eq ⟨sound.wf, sound.ran, sound.listeners, sound.roots⟩ rfl rfl (Nat.le_refl _)

/-- Only its own `removeListener` changes what the registry has for an element that is served
    and does not share its id. -/
theorem step_entry (sound : n.world.Sound) (bound : e < n.world.store.heap.length) (unshared : n.world.Unshared e)
    (passed : n.world.next ≠ some e) {move : Move κ} (keeps : ∀ listener, move.on e ≠ some (.remove listener)) :
    (n.step move).world.entry e = n.world.entry e := by
  have continues := step_continues sound move
  cases move with
  | mount page payload => exact continues.entry sound.wf bound (mount_rest sound page payload).2.2
  | update page data clock => exact continues.entry sound.wf bound (World.update_store sound.wf page data clock).2.2.1
  | task =>
    show n.world.task.entry e = n.world.entry e
    obtain ⟨_, same⟩ | ⟨a, listeners, next, _, same, get⟩ := n.world.task_cases
    · rw [same]
    · have other : a ≠ e := fun own => passed (next.trans (congrArg some own))
      rw [same, entry_replaced sound.wf bound (fun _ => unshared) get, if_neg other]
  | addListener a listener => exact continues.entry sound.wf bound rfl
  | removeListener a listener =>
    have other : a ≠ e := fun same => keeps listener (by simp [Move.on, same])
    have off := deregister_continues sound a
    have kept : (n.world.deregister a).entry e = n.world.entry e := by
      rw [deregister_entry sound.wf bound fun _ => unshared, if_neg other]
    unfold Notified.step Notified.removeListener
    simp only
    split
    · rw [(detach_continues off.sound a).entry off.sound.wf (Nat.lt_of_lt_of_le bound off.evolves.longer) rfl]
      exact kept
    · exact kept
  | build a => exact continues.entry sound.wf bound rfl
  | painted => exact continues.entry sound.wf bound rfl

theorem attached_other {move : Move κ} (elsewhere : move.on e = none) : (n.step move).attached e = n.attached e := by
  cases move with
  | addListener a listener =>
    have other : e ≠ a := fun same => by simp [Move.on, same] at elsewhere
    exact Function.update_of_ne other _ _
  | removeListener a listener =>
    have other : e ≠ a := fun same => by simp [Move.on, same] at elsewhere
    exact Function.update_of_ne other _ _
  | _ => rfl

theorem attached_removed (n : Notified κ) (e : Nat) (listener : κ) :
    (n.removeListener e listener).attached e = (n.attached e).erase listener := Function.update_self e _ _

theorem removed_entry (ready : Ready n.world e) (listener : κ) :
    (n.removeListener e listener).world.entry e = none := by
  have gone : (n.world.deregister e).entry e = none := by
    rw [deregister_entry ready.sound.wf ready.bound fun other => absurd rfl other, if_pos rfl]
  unfold Notified.removeListener
  simp only
  split
  · exact gone
  · exact gone

theorem Ready.step (ready : Ready n.world e) (move : Move κ) : Ready (n.step move).world e := by
  have continues := step_continues ready.sound move
  exact ⟨continues.sound, continues.once ready.once, continues.served ready.served⟩

theorem final_continues (sound : n.world.Sound) (moves : List (Move κ)) :
    Continues n.world (Run.final Notified.step n moves).world := by
  induction moves generalizing n with
  | nil => exact continues_of_eq sound rfl rfl (Nat.le_refl _)
  | cons move rest ih =>
    have first := step_continues sound move
    exact first.trans (ih first.sound)

/-- While the id does not go off the registry, the entry stays. -/
theorem Ready.entry (ready : Ready n.world e) {move : Move κ} {rest : List (Move κ)}
    (unshared : (Run.final Notified.step n (move :: rest)).world.Unshared e)
    (keeps : ∀ listener, move.on e ≠ some (.remove listener)) : (n.step move).world.entry e = n.world.entry e := by
  have before := (final_continues ready.sound (move :: rest)).unshared ready.sound.wf ready.bound unshared
  exact step_entry ready.sound ready.bound before (served_next ready.once ready.served) keeps

def Listened (n : Notified κ) (e : Nat) (moves : List (Move κ)) : Prop :=
  ∀ m ∈ Run.states Notified.step n moves, m.attached e ≠ [] → m.world.entry e = some e

theorem listened_nil : Listened n e [] ↔ (n.attached e ≠ [] → n.world.entry e = some e) := by
  simp [Listened, Run.states]

theorem listened_cons {move : Move κ} {rest : List (Move κ)} :
    Listened n e (move :: rest) ↔
      (n.attached e ≠ [] → n.world.entry e = some e) ∧ Listened (n.step move) e rest := by
  simp [Listened, Run.states]

/-- Once the id is off the registry it never comes back, so no listener may be attached any more. -/
theorem lost_iff (ready : Ready n.world e) (moves : List (Move κ)) (lost : n.world.entry e ≠ some e)
    (unshared : (Run.final Notified.step n moves).world.Unshared e) :
    Listened n e moves ↔ n.attached e = [] ∧ ∀ call ∈ moves.filterMap (Move.on e), call.isAdd = false := by
  induction moves generalizing n with
  | nil => simp [listened_nil, lost]
  | cons move rest ih =>
    have empty : (n.attached e ≠ [] → n.world.entry e = some e) ↔ n.attached e = [] := by simp [lost]
    rw [listened_cons, empty]
    cases call : move.on e with
    | none =>
      have entry := ready.entry unshared (by simp [call])
      rw [ih (ready.step move) (by rw [entry]; exact lost) unshared, attached_other call, List.filterMap_cons_none call,
        and_self_left]
    | some made =>
      rw [List.filterMap_cons_some call, List.forall_mem_cons]
      cases made with
      | add listener =>
        have entry := ready.entry unshared (by simp [call])
        rw [ih (ready.step move) (by rw [entry]; exact lost) unshared, on_call call, Call.move, Notified.step,
          attached_added]
        simp [Call.isAdd]
      | remove listener =>
        have entry := removed_entry ready listener
        have moved : move = .removeListener e listener := on_call call
        subst moved
        rw [ih (ready.step _) (by rw [Notified.step, entry]; simp) unshared, Notified.step, attached_removed]
        refine and_congr_right fun nothing => ?_
        simp [nothing, Call.isAdd]

theorem kept_iff (ready : Ready n.world e) (moves : List (Move κ)) (registered : n.world.entry e = some e)
    (unshared : (Run.final Notified.step n moves).world.Unshared e) :
    Listened n e moves ↔ Kept (n.attached e) (moves.filterMap (Move.on e)) := by
  induction moves generalizing n with
  | nil => simp [listened_nil, registered, Kept]
  | cons move rest ih =>
    have here : n.attached e ≠ [] → n.world.entry e = some e := fun _ => registered
    rw [listened_cons, and_iff_right here]
    cases call : move.on e with
    | none =>
      have entry := ready.entry unshared (by simp [call])
      rw [ih (ready.step move) (entry.trans registered) unshared, attached_other call, List.filterMap_cons_none call]
    | some made =>
      rw [List.filterMap_cons_some call]
      cases made with
      | add listener =>
        have entry := ready.entry unshared (by simp [call])
        rw [ih (ready.step move) (entry.trans registered) unshared, on_call call, Call.move, Notified.step,
          attached_added, Kept]
      | remove listener =>
        have entry := removed_entry ready listener
        have moved : move = .removeListener e listener := on_call call
        subst moved
        rw [lost_iff (ready.step _) rest (by rw [Notified.step, entry]; simp) unshared, Notified.step, attached_removed,
          Kept]

namespace Notified

theorem run_continues (moves : List (Move κ)) : Continues {} (run moves).world :=
  final_continues (n := ({} : Notified κ)) World.start_sound moves

theorem task_ready (moves : List (Move κ)) (next : (run moves).world.next = some e) :
    Ready ((run moves).step .task).world e ∧ ((run moves).step .task).world.entry e = some e := by
  have continues := run_continues moves
  have sound := continues.sound
  obtain ⟨empty, _⟩ | ⟨a, listeners, first, _, same, get⟩ := (run moves).world.task_cases
  · cases empty.symm.trans next
  cases Option.some.inj (first.symm.trans next)
  obtain ⟨bound, here⟩ := List.getElem?_eq_some_iff.mp next
  have inside := sound.wf.scheduled e (here ▸ List.getElem_mem bound)
  have after := task_continues sound
  show Ready (run moves).world.task e ∧ (run moves).world.task.entry e = some e
  rw [same] at after ⊢
  refine ⟨⟨after.sound, after.once (continues.once List.nodup_nil), ?_⟩, ?_⟩
  · show e ∈ (run moves).world.store.scheduled.take ((run moves).world.ran + 1)
    rw [List.take_succ_eq_append_getElem bound, here]
    simp
  · rw [entry_replaced sound.wf inside (fun other => absurd rfl other) get, if_pos rfl]

/-- From the registration task on, an element with an id of its own is registered whenever a
    listener is attached, exactly when a listener is removed only if no other is attached and
    none is added after that. -/
theorem listened_registered_iff (before after : List (Move κ)) (e : Nat) (next : (run before).world.next = some e)
    (unshared : (run (before ++ .task :: after)).world.Unshared e) :
    Listened (run (before ++ [.task])) e after ↔ Kept ((run before).attached e) (after.filterMap (Move.on e)) := by
  obtain ⟨ready, registered⟩ := task_ready before next
  have split : run (before ++ .task :: after) = Run.final step ((run before).step .task) after := by
    simp [run, Run.final]
  rw [split] at unshared
  rw [run, Run.final_snoc]
  exact kept_iff ready after registered unshared

theorem listened_registered_iff_text :
    Listened (run [.mount "page" samplePage, .task]) 2 [.addListener 2 "a", .task, .removeListener 2 "a"] :=
  (listened_registered_iff [.mount "page" samplePage] [.addListener 2 "a", .task, .removeListener 2 "a"] 2
    (by decide +kernel) (by decide +kernel)).mpr (by decide +kernel)

def movedMoves : List (Move String) :=
  [.mount "page" samplePage, .task, .addListener 2 "old", .addListener 2 "new", .removeListener 2 "old"]

theorem moved_listener_unregistered :
    (run ([.mount "page" samplePage] : List (Move String))).world.next = some 2 ∧
      (run movedMoves).world.Unshared 2 ∧ (run movedMoves).attached 2 = ["new"] ∧
      (run movedMoves).world.entry 2 = none := by
  decide +kernel

end Notified

end Runs

section Frames

structure Tallies (n : Notified Unit) (w : World) : Prop where
  world : n.world = w
  count : ∀ e, (n.attached e).length = (w.store.builders.map Builder.element).count e

variable {n : Notified Unit} {w : World}

theorem deregister_detach (w : World) (e : Nat) :
    { w.deregister e with store := (w.deregister e).store.detach e } =
      { w with store := w.store.detach e }.deregister e := by
  cases found : w.store.heap[e]? with
  | none => simp [World.deregister, Store.detach, found]
  | some el =>
    cases reaches : rootOf w.store.heap e with
    | none => simp [World.deregister, Store.detach, found, reaches]
    | some root => simp [World.deregister, World.off, Store.detach, found, reaches]

theorem detach_count (s : Store) (e a : Nat) :
    ((s.detach e).builders.map Builder.element).count a =
      (s.builders.map Builder.element).count a - if e = a then 1 else 0 := by
  have erased : (s.detach e).builders.map Builder.element = (s.builders.map Builder.element).erase e := by
    have test : (fun b : Builder => decide (b.element = e)) = (e == ·) ∘ Builder.element := by
      funext b
      exact decide_eq_decide.mpr eq_comm
    rw [List.erase_eq_eraseP, List.eraseP_map, Store.detach, test]
  rw [erased, List.count_erase]
  simp

theorem detach_unmounted {s : Store} {e : Nat} (unmounted : e ∉ s.builders.map Builder.element) : s.detach e = s := by
  rw [Store.detach, List.eraseP_of_forall_not]
  intro b member
  simp only [decide_eq_true_eq]
  exact fun here => unmounted (List.mem_map.mpr ⟨b, member, here⟩)

theorem attach_count {s : Store} {e : Nat} (mounts : s.attach e ≠ s) (a : Nat) :
    ((s.attach e).builders.map Builder.element).count a =
      (s.builders.map Builder.element).count a + if e = a then 1 else 0 := by
  unfold Store.attach at mounts ⊢
  split at mounts
  · split at mounts
    · rename_i mountable
      simp [mountable, List.count_singleton]
    · exact absurd rfl mounts
  · exact absurd rfl mounts

theorem attach_tallies (tallies : Tallies n w) {e : Nat} (mounts : w.store.attach e ≠ w.store) :
    Tallies (n.addListener e ()) (w.frameOp (.attach e)) := by
  obtain ⟨rfl, count⟩ := tallies
  refine ⟨rfl, fun a => ?_⟩
  show _ = ((n.world.store.attach e).builders.map Builder.element).count a
  rw [attach_count mounts, ← count a]
  by_cases here : e = a
  · subst here
    rw [attached_added, List.length_append, List.length_singleton, if_pos rfl]
  · have elsewhere : (n.addListener e ()).attached a = n.attached a := Function.update_of_ne (Ne.symm here) _ _
    rw [elsewhere, if_neg here, Nat.add_zero]

theorem detach_tallies (tallies : Tallies n w) {e : Nat} (mounted : e ∈ w.store.builders.map Builder.element) :
    Tallies (n.removeListener e ()) (w.frameOp (.detach e)) := by
  obtain ⟨rfl, count⟩ := tallies
  have attached : () ∈ n.attached e := by
    have positive := List.count_pos_iff.mpr mounted
    rw [← count e] at positive
    obtain ⟨listener, member⟩ := List.exists_mem_of_length_pos positive
    exact member
  refine ⟨?_, fun a => ?_⟩
  · simp only [Notified.removeListener, attached, if_true, deregister_detach, World.frameOp, mounted, Store.frameOp]
  · rw [(World.frameOp_rest n.world (.detach e)).1, Store.frameOp, detach_count, ← count a]
    by_cases here : e = a
    · subst here
      rw [attached_removed, List.length_erase_of_mem attached, if_pos rfl]
    · have elsewhere : (n.removeListener e ()).attached a = n.attached a := Function.update_of_ne (Ne.symm here) _ _
      rw [elsewhere, if_neg here, Nat.sub_zero]

/-- Every operation of a frame on a builder is a call, or does nothing. -/
theorem frameOp_calls (op : FrameOp) (tallies : Tallies n w) :
    ∃ moves, Tallies (Run.final Notified.step n moves) (w.frameOp op) := by
  cases op with
  | attach e =>
    by_cases same : w.store.attach e = w.store
    · have still : w.frameOp (.attach e) = w := by simp [World.frameOp, Store.frameOp, same]
      exact ⟨[], still.symm ▸ tallies⟩
    · exact ⟨[.addListener e ()], attach_tallies tallies same⟩
  | detach e =>
    by_cases mounted : e ∈ w.store.builders.map Builder.element
    · exact ⟨[.removeListener e ()], detach_tallies tallies mounted⟩
    · have still : w.frameOp (.detach e) = w := by
        simp [World.frameOp, Store.frameOp, mounted, detach_unmounted]
      exact ⟨[], still.symm ▸ tallies⟩
  | build e =>
    obtain ⟨rfl, count⟩ := tallies
    refine ⟨[.build e], rfl, fun a => ?_⟩
    show (n.attached a).length = ((n.world.store.build e).builders.map Builder.element).count a
    rw [build_mounts]
    exact count a

/-- What an event does to the world, moves do. -/
theorem event_calls (event : World.Event) (tallies : Tallies n w) :
    ∃ moves, Tallies (Run.final Notified.step n moves) (w.step event) := by
  cases event with
  | mount page payload =>
    obtain ⟨rfl, count⟩ := tallies
    refine ⟨[.mount page payload], rfl, fun e => ?_⟩
    rw [World.step, (mount_schedules n.world page payload).builders]
    exact count e
  | update page data clock =>
    obtain ⟨rfl, count⟩ := tallies
    refine ⟨[.update page data clock], rfl, fun e => ?_⟩
    rw [World.step, (update_schedules n.world page data clock).builders]
    exact count e
  | task =>
    obtain ⟨rfl, count⟩ := tallies
    refine ⟨[.task], rfl, fun e => ?_⟩
    rw [World.step, (task_rest n.world).1]
    exact count e
  | frame ops =>
    obtain ⟨moves, world, count⟩ := Run.simulated (fun _ _ op => frameOp_calls op) ops tallies
    refine ⟨moves ++ [.painted], ?_, ?_⟩
    · rw [Run.final_snoc, Notified.step, world]
      rfl
    · rw [Run.final_snoc]
      exact count

/-- Every run of the world is a run of its notifiers, where each mounted builder listens once. -/
theorem run_calls (events : List World.Event) :
    ∃ moves, Tallies (Notified.run moves) (World.run events) :=
  Run.simulated (fun _ _ event => event_calls event) events ⟨rfl, fun _ => rfl⟩

end Frames

end Sano.Render
