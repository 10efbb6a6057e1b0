import Sano.Base.Matched
import Sano.Render.Evolution

namespace Sano.Render

section Readings

-- The code never reads a notifier or a mark: two stores that differ in nothing
-- else stay so, whatever the clock says.

theorem cast_matched {α β : Type} {values : β → β → Prop} {value : Option α} {next next' : α → Dart β}
    (present : ∀ v, value = some v → Matched Repainted values (next v) (next' v)) :
    Matched Repainted values (cast value >>= next) (cast value >>= next') := by
  cases value with
  | none => exact .throw _
  | some v => exact present v rfl

theorem alloc_matched (el : Element) : Matched Repainted Eq (alloc el) (alloc el) := by
  intro s s' same
  refine ⟨same.length.symm, ⟨fun a held found => ?_, by simp [same.length], same.scheduled, same.builders⟩⟩
  rcases Nat.lt_or_ge a s.heap.length with old | new
  · rw [List.getElem?_append_left old] at found
    rw [List.getElem?_append_left (by rw [same.length]; exact old)]
    exact same.cells a held found
  · rw [List.getElem?_append_right new] at found
    rw [List.getElem?_append_right (by rw [same.length]; exact new), same.length]
    exact ⟨held, found, .refl held⟩

theorem modify_matched (a : Nat) {change change' : Element → Element}
    (faces : ∀ el el', Element.SameFace el' el → (change' el').SameFace (change el)) :
    Matched Repainted Eq (modifyElement a change) (modifyElement a change') := by
  intro s s' same
  refine ⟨rfl, ⟨fun b held found => ?_, by simp [same.length], same.scheduled, same.builders⟩⟩
  rw [modify_get] at found ⊢
  split at found
  · rename_i here
    obtain ⟨el, cell, rfl⟩ := Option.map_eq_some_iff.mp found
    obtain ⟨el', cell', face⟩ := same.cells b el cell
    exact ⟨change' el', by simp [here, cell'], faces el el' face⟩
  · rename_i other
    simpa only [other, if_false] using same.cells b held found

theorem schedule_matched (a : Nat) : Matched Repainted Eq (schedule a) (schedule a) :=
  fun _ _ same => ⟨rfl, ⟨same.cells, same.length, by simp [same.scheduled], same.builders⟩⟩

theorem read_matched (a : Nat) : Matched Repainted (fun el el' => el'.SameFace el) (read a) (read a) := by
  intro s s' same
  unfold read
  cases found : s.heap[a]? with
  | some el =>
    obtain ⟨el', found', face⟩ := same.cells a el found
    simp only [found']
    exact ⟨face, same⟩
  | none =>
    have missing : s'.heap[a]? = none := by
      rw [List.getElem?_eq_none_iff] at found ⊢
      rw [same.length]
      exact found
    simp only [missing]
    exact ⟨rfl, same⟩

theorem Repainted.symm {s t : Store} (repainted : Repainted s t) : Repainted t s where
  cells a el found := by
    have bound : a < s.heap.length := by
      rw [← repainted.length]
      exact (List.getElem?_eq_some_iff.mp found).1
    obtain ⟨el', found', face⟩ := repainted.cells a s.heap[a] (List.getElem?_eq_getElem bound)
    cases Option.some.inj (found.symm.trans found')
    exact ⟨_, List.getElem?_eq_getElem bound, face.symm⟩
  length := repainted.length.symm
  scheduled := repainted.scheduled.symm
  builders := repainted.builders.symm

theorem Repainted.frameOp {s t : Store} (same : Repainted s t) (op : FrameOp) :
    Repainted (s.frameOp op) (t.frameOp op) where
  cells := by simpa only [frameOp_heap] using same.cells
  length := by simpa only [frameOp_heap] using same.length
  scheduled := by simpa only [frameOp_scheduled] using same.scheduled
  builders := by
    cases op with
    | attach e =>
      cases found : s.heap[e]? with
      | none =>
        have missing : t.heap[e]? = none := by
          rw [List.getElem?_eq_none_iff] at found ⊢
          rw [same.length]
          exact found
        simpa only [Store.frameOp, Store.attach, found, missing] using same.builders
      | some el =>
        obtain ⟨el', found', face⟩ := same.cells e el found
        simp only [Store.frameOp, Store.attach, found, found', face.kind]
        split
        · rw [List.map_append, List.map_append, same.builders]
          rfl
        · exact same.builders
    | detach e =>
      have erased (builders : List Builder) : (builders.eraseP fun b => b.element = e).map Builder.element =
          (builders.map Builder.element).eraseP fun a => a = e := by
        rw [List.eraseP_map]
        rfl
      rw [Store.frameOp, Store.detach, Store.frameOp, Store.detach, erased, erased, same.builders]
    | build e => exact (build_mounts t e).trans (same.builders.trans (build_mounts s e).symm)

theorem setNotifier_matched (a : Nat) (now now' : Int) :
    Matched Repainted Eq (setNotifier a now) (setNotifier a now') := by
  intro s s' same
  cases found : s.heap[a]? with
  | some el =>
    obtain ⟨el', found', _⟩ := same.cells a el found
    rw [setNotifier_eq found, setNotifier_eq found']
    exact ⟨rfl, (Repainted.notify s a now).symm.trans (same.trans (.notify s' a now'))⟩
  | none =>
    have missing : s'.heap[a]? = none := by
      rw [List.getElem?_eq_none_iff] at found ⊢
      rw [same.length]
      exact found
    simp only [setNotifier, found, missing]
    exact ⟨rfl, same⟩

theorem createItem_matched {create : Object → Nat → Dart Nat} (parent : Nat) {item : Json}
    (creates : ∀ object, item.asMap = some object → Matched Repainted Eq (create object parent) (create object parent)) :
    Matched Repainted Eq (createItem create parent item) (createItem create parent item) := by
  exact cast_matched creates

theorem sanoElement_matched {create : Object → Nat → Dart Nat} {renderObject : Object}
    (creates : ∀ below : Object, below.depth < renderObject.depth → ∀ parent,
      Matched Repainted Eq (create below parent) (create below parent)) (kind : Kind) (parent : Option Nat) :
    Matched Repainted Eq (sanoElement create kind renderObject parent) (sanoElement create kind renderObject parent) := by
  unfold sanoElement
  refine cast_matched fun id _ => ?_
  refine cast_matched fun tag _ => ?_
  refine cast_matched fun props _ => ?_
  refine cast_matched fun events _ => ?_
  refine .bind (alloc_matched _) fun self _ same => ?_
  subst same
  have finish (kids : Option (List Nat)) : Matched Repainted Eq
      (do modifyElement self (.withChildren kids); schedule self; return self)
      (do modifyElement self (.withChildren kids); schedule self; return self) := by
    refine .bind (modify_matched self fun _ _ face =>
      ⟨face.kind, face.id, face.tag, face.props, face.events, face.parent, rfl, face.fragment⟩) fun _ _ _ => ?_
    exact .bind (schedule_matched self) fun _ _ _ => .pure rfl
  refine cast_matched fun items held => ?_
  cases items with
  | none => exact finish none
  | some items =>
    refine .bind (.mapM fun item member => createItem_matched self fun object cast => ?_) fun kids _ same => ?_
    · exact creates object (item_depth (asList_of_asListOrNull held) member cast) self
    · subst same
      exact finish (some kids)

theorem floatingActionButtonBuilder_matched (self element : Nat) :
    Matched Repainted Eq (floatingActionButtonBuilder self element) (floatingActionButtonBuilder self element) := by
  have fill (widget : Option Nat) : Matched Repainted Eq
      (modifyElement self (.withFloatingActionButton widget)) (modifyElement self (.withFloatingActionButton widget)) :=
    modify_matched self fun _ _ face =>
      ⟨face.kind, face.id, face.tag, face.props, face.events, face.parent, face.children, face.fragment⟩
  unfold floatingActionButtonBuilder
  refine .bind (read_matched element) fun source source' face => ?_
  rw [face.children]
  cases source.children with
  | none => exact fill none
  | some kids =>
    cases kids with
    | nil => exact .throw _
    | cons first rest => exact fill (some first)

theorem initSlots_matched {create : Object → Nat → Dart Nat} {renderObject : Object}
    (creates : ∀ below : Object, below.depth < renderObject.depth → ∀ parent,
      Matched Repainted Eq (create below parent) (create below parent)) (self : Nat) :
    Matched Repainted Eq (initSlots create renderObject self) (initSlots create renderObject self) := by
  rw [initSlots_eq]
  unfold initSlot
  split
  · refine cast_matched fun below cast => ?_
    have lower : below.depth < renderObject.depth :=
      Nat.lt_of_lt_of_le (asMap_depth cast) (field_depth renderObject _)
    refine .bind (sanoElement_matched (fun deeper small => creates deeper (Nat.lt_trans small lower))
      .fragment (some self)) fun element _ same => ?_
    subst same
    refine .bind (modify_matched self fun _ _ face =>
      ⟨face.kind, face.id, face.tag, face.props, face.events, face.parent, face.children, rfl⟩) fun _ _ _ => ?_
    exact floatingActionButtonBuilder_matched self element
  · exact .pure rfl

theorem createNodeElement_matched (object : Object) (parent : Nat) :
    Matched Repainted Eq (createNodeElement object parent) (createNodeElement object parent) := by
  generalize bound : object.depth = n
  induction n using Nat.strongRecOn generalizing object parent with
  | ind n ih =>
    have creates : ∀ below : Object, below.depth < object.depth → ∀ parent,
        Matched Repainted Eq (createNodeElement below parent) (createNodeElement below parent) :=
      fun below small parent => ih below.depth (by omega) below parent rfl
    rw [createNodeElement_eq]
    unfold createStep
    refine cast_matched fun tag _ => ?_
    split
    · refine .bind (sanoElement_matched creates .scaffold (some parent)) fun self _ same => ?_
      subst same
      exact .bind (initSlots_matched creates self) fun _ _ _ => .pure rfl
    · exact sanoElement_matched creates .element (some parent)

theorem rootElement_matched (payload : Json) (channel : String) :
    Matched Repainted Eq (rootElement payload channel) (rootElement payload channel) :=
  cast_matched fun _ _ => sanoElement_matched (fun below _ parent => createNodeElement_matched below parent) .root none

theorem withChildren_matched (self : Nat) (kids : List Nat) :
    Matched Repainted Eq (modifyElement self (.withChildren (some kids))) (modifyElement self (.withChildren (some kids))) :=
  modify_matched self fun _ _ face =>
    ⟨face.kind, face.id, face.tag, face.props, face.events, face.parent, rfl, face.fragment⟩

theorem children_matched (self : Nat) (renderObject : Object) {next next' : List Nat → Dart Unit}
    (later : ∀ kids, Matched Repainted Eq (next kids) (next' kids)) :
    Matched Repainted Eq
      (do let items ← cast (renderObject.field "children").asList
          let children ← items.mapM (createItem createNodeElement self)
          next children)
      (do let items ← cast (renderObject.field "children").asList
          let children ← items.mapM (createItem createNodeElement self)
          next' children) := by
  refine cast_matched fun items _ => ?_
  refine .bind (.mapM fun item _ => createItem_matched self fun object _ => createNodeElement_matched object self)
    fun kids _ same => ?_
  subst same
  exact later kids

theorem updateKey_matched (self : Nat) (renderObject : Object) (key : String) :
    Matched Repainted Eq (updateKey self renderObject key) (updateKey self renderObject key) := by
  unfold updateKey
  split
  · exact children_matched self renderObject (withChildren_matched self)
  · split
    · refine cast_matched fun props _ => ?_
      exact modify_matched self fun el el' face =>
        ⟨face.kind, face.id, face.tag, congrArg (fun old : Object => old.addAll props) face.props, face.events,
          face.parent, face.children, face.fragment⟩
    · exact .pure rfl

theorem fillSlot_matched (self holder : Nat) (tag : String) :
    Matched Repainted Eq (fillSlot self holder tag) (fillSlot self holder tag) := by
  rw [fillSlot_eq]
  split
  · exact floatingActionButtonBuilder_matched holder self
  · exact .pure rfl

/-- Which reading of the clock an update takes shows in no document. -/
theorem update_matched (self : Nat) (renderObject : Object) (now now' : Int) :
    Matched Repainted Eq (update self renderObject now) (update self renderObject now') := by
  unfold update
  refine .bind (read_matched self) fun el el' face => ?_
  rw [face.kind]
  split
  · unfold fragmentUpdate
    apply children_matched
    intro kids
    refine .bind (withChildren_matched self kids) fun _ _ _ => ?_
    refine .bind (read_matched self) fun el el' face => ?_
    rw [face.parent, face.tag]
    cases el.parent with
    | none => exact .pure rfl
    | some holder =>
      refine .bind (read_matched holder) fun owner owner' face' => ?_
      rw [face'.kind]
      split
      · exact .bind (fillSlot_matched self holder el.tag) fun _ _ _ => setNotifier_matched holder now now'
      · exact .pure rfl
  · exact .bind (.forM fun key _ => updateKey_matched self renderObject key) fun _ _ _ =>
      setNotifier_matched self now now'

theorem emit_matched {listeners listeners' : LinkedMap String Nat} {id : String}
    (same : listeners'.get? id = listeners.get? id) (value : Json) (now now' : Int) :
    Matched Repainted Eq (emit listeners id value now) (emit listeners' id value now') := by
  unfold emit
  rw [same]
  refine cast_matched fun renderObject _ => ?_
  cases listeners.get? id with
  | none => exact .pure rfl
  | some e => exact update_matched e renderObject now now'

end Readings

namespace World

section Prompt

inductive Input where
  | mount (page : String) (payload : Json)
  | update (page : String) (data : Json)
  | frame (ops : List FrameOp)

def Event.input : Event → Option Input
  | .mount page payload => some (.mount page payload)
  | .update page data _ => some (.update page data)
  | .task => none
  | .frame ops => some (.frame ops)

def registerIn (heap : List Element) (listeners : Nat → LinkedMap String Nat) (a : Nat) :
    Nat → LinkedMap String Nat :=
  match heap[a]?.map Element.id, rootOf heap a with
  | some id, some root => Function.update listeners root ((listeners root).insert id a)
  | _, _ => listeners

def settled (w : World) : Nat → LinkedMap String Nat := w.pending.foldl (registerIn w.store.heap) w.listeners

def promptAll (w : World) (root : Nat) : List (String × Json) → World
  | [] => w
  | (id, value) :: rest =>
    match emit (w.settled root) id value 0 w.store with
    | .ok _ s => promptAll { w with store := s } root rest
    | .error _ s => { w with store := s }

def settle (w : World) : World := { w with listeners := w.settled, ran := w.store.scheduled.length }

def prompt (w : World) : Input → World
  | .mount page payload => w.mount page payload
  | .update page data =>
    match data.asMap, w.roots.get? page with
    | some entries, some root => w.promptAll root entries.entries
    | _, _ => w
  | .frame ops => w.settle.frame ops

def timelyAll (listeners : LinkedMap String Nat) (ran root : Nat) :
    List (String × Json) → (Nat → Int) → Store → Bool
  | [], _, _ => true
  | (id, value) :: rest, clock, s =>
    (s.scheduled.drop ran).all (fun a =>
      rootOf s.heap a != some root || s.heap[a]?.map Element.id != some id) &&
    match emit listeners id value (clock 0) s with
    | .ok _ t => timelyAll listeners ran root rest (fun n => clock (n + 1)) t
    | .error _ _ => true

def Unawaited (w : World) (e : Nat) : Prop :=
  ∀ a ∈ w.pending, rootOf w.store.heap a = rootOf w.store.heap e →
    w.store.heap[a]?.map Element.id ≠ w.store.heap[e]?.map Element.id

def Undisturbed (w : World) : FrameOp → Prop
  | .detach e => e ∈ w.store.builders.map Builder.element → w.Unawaited e
  | _ => True

def timelyUpdate (w : World) (page : String) (data : Json) (clock : Nat → Int) : Bool :=
  match data.asMap, w.roots.get? page with
  | some entries, some root => timelyAll (w.listeners root) w.ran root entries.entries clock w.store
  | _, _ => true

def Timely (w : World) : Event → Prop
  | .update page data clock => w.timelyUpdate page data clock = true
  | .frame ops => Run.Along frameOp Undisturbed w ops
  | _ => True

instance (w : World) (e : Nat) : Decidable (w.Unawaited e) :=
  inferInstanceAs (Decidable (∀ a ∈ w.pending, _))

instance (w : World) : (op : FrameOp) → Decidable (w.Undisturbed op)
  | .attach _ => isTrue trivial
  | .detach e => inferInstanceAs (Decidable (e ∈ w.store.builders.map Builder.element → w.Unawaited e))
  | .build _ => isTrue trivial

instance (w : World) : (event : Event) → Decidable (w.Timely event)
  | .mount _ _ => isTrue trivial
  | .update page data clock => inferInstanceAs (Decidable (w.timelyUpdate page data clock = true))
  | .task => isTrue trivial
  | .frame ops => inferInstanceAs (Decidable (Run.Along frameOp Undisturbed w ops))

end Prompt

section Mirror

theorem task_settled (w : World) : w.task.settled = w.settled := by
  unfold task
  cases next : w.store.scheduled[w.ran]? with
  | none => rfl
  | some e =>
    obtain ⟨bound, here⟩ := List.getElem?_eq_some_iff.mp next
    have waiting : w.pending = e :: w.store.scheduled.drop (w.ran + 1) := by
      rw [pending, ← here]
      exact List.drop_eq_getElem_cons bound
    have registered : ({ w with ran := w.ran + 1 }.register e).listeners = registerIn w.store.heap w.listeners e := by
      unfold register registerIn
      cases w.store.heap[e]? <;> cases rootOf w.store.heap e <;> rfl
    obtain ⟨listeners, same, _⟩ := register_spec { w with ran := w.ran + 1 } e
    simp only [settled, pending, same] at waiting registered ⊢
    rw [registered, waiting, List.foldl_cons]

theorem registerIn_congr {heap heap' : List Element} {tasks : List Nat}
    (same : ∀ a ∈ tasks, heap'[a]?.map Element.id = heap[a]?.map Element.id ∧ rootOf heap' a = rootOf heap a)
    (listeners : Nat → LinkedMap String Nat) :
    tasks.foldl (registerIn heap') listeners = tasks.foldl (registerIn heap) listeners := by
  induction tasks generalizing listeners with
  | nil => rfl
  | cons a rest ih =>
    obtain ⟨id, root⟩ := same a (by simp)
    have step : registerIn heap' listeners a = registerIn heap listeners a := by
      unfold registerIn
      rw [id, root]
    rw [List.foldl_cons, List.foldl_cons, step]
    exact ih (fun a member => same a (by simp [member])) _

theorem Evolves.registrations {s t : Store} (evolves : Evolves s t) (wf : WellFormed s) (a : Nat)
    (bound : a < s.heap.length) :
    t.heap[a]?.map Element.id = s.heap[a]?.map Element.id ∧ rootOf t.heap a = rootOf s.heap a := by
  obtain ⟨el, found⟩ : ∃ el, s.heap[a]? = some el := ⟨_, List.getElem?_eq_getElem bound⟩
  obtain ⟨el', found', kept⟩ := evolves.cells a el found
  exact ⟨by simp [found, found', kept.id], evolves.rootOf wf a bound⟩

theorem settled_evolve {w v : World} {more : List Nat} (wf : WellFormed w.store) (ran : w.ran ≤ w.store.scheduled.length)
    (evolves : Evolves w.store v.store) (same : v.ran = w.ran) (listeners : v.listeners = w.listeners)
    (extended : w.store.scheduled ++ more = v.store.scheduled) :
    v.settled = more.foldl (registerIn v.store.heap) w.settled := by
  have waiting : v.pending = w.pending ++ more := by
    simp only [pending, same, ← extended]
    exact List.drop_append_of_le_length ran
  simp only [settled]
  rw [waiting, listeners, List.foldl_append]
  congr 1
  apply registerIn_congr
  intro a member
  exact Evolves.registrations evolves wf a (wf.scheduled a (List.mem_of_mem_drop member))

/-- What a task puts into a registry does not depend on what was there. -/
theorem registerIn_same {heap : List Element} {listeners listeners' : Nat → LinkedMap String Nat} {root : Nat}
    {id : String} (same : (listeners' root).get? id = (listeners root).get? id) (a : Nat) :
    (registerIn heap listeners' a root).get? id = (registerIn heap listeners a root).get? id := by
  unfold registerIn
  cases heap[a]?.map Element.id with
  | none => exact same
  | some key =>
    cases rootOf heap a with
    | none => exact same
    | some target =>
      by_cases here : root = target
      · subst here
        simp only [Function.update_self, LinkedMap.get?_insert, same]
      · simp only [Function.update_of_ne here, same]

theorem foldl_registerIn_same {heap : List Element} (tasks : List Nat)
    {listeners listeners' : Nat → LinkedMap String Nat} {root : Nat} {id : String}
    (same : (listeners' root).get? id = (listeners root).get? id) :
    (tasks.foldl (registerIn heap) listeners' root).get? id =
      (tasks.foldl (registerIn heap) listeners root).get? id := by
  induction tasks generalizing listeners listeners' with
  | nil => exact same
  | cons a rest ih => exact ih (registerIn_same same a)

theorem registerIn_get {heap : List Element} {root : Nat} {id : String} (tasks : List Nat)
    (other : ∀ a ∈ tasks, rootOf heap a = some root → heap[a]?.map Element.id ≠ some id)
    (listeners : Nat → LinkedMap String Nat) :
    (tasks.foldl (registerIn heap) listeners root).get? id = (listeners root).get? id := by
  induction tasks generalizing listeners with
  | nil => rfl
  | cons a rest ih =>
    rw [List.foldl_cons, ih fun b member => other b (by simp [member])]
    have apart := other a (by simp)
    unfold registerIn
    cases key : heap[a]?.map Element.id with
    | none => rfl
    | some key' =>
      cases reaches : rootOf heap a with
      | none => rfl
      | some target =>
        by_cases same : root = target
        · subst same
          have different : key' ≠ id := fun same => apart reaches (key.trans (congrArg some same))
          simp [different]
        · simp only [Function.update_of_ne same]

structure Mirrors (u w : World) : Prop where
  wf : WellFormed u.store
  store : Repainted u.store w.store
  settled : ∀ root id, (w.settled root).get? id = (u.settled root).get? id
  roots : w.roots = u.roots
  mounted : w.mounted = u.mounted
  ran : w.ran ≤ w.store.scheduled.length
  ran' : u.ran ≤ u.store.scheduled.length

theorem Mirrors.evolve {u w u' w' : World} (mirrors : Mirrors u w) (evolves' : Evolves u.store u'.store)
    (evolves : Evolves w.store w'.store) (store : Repainted u'.store w'.store) (ran : w'.ran = w.ran)
    (ran' : u'.ran = u.ran) (listeners : w'.listeners = w.listeners) (listeners' : u'.listeners = u.listeners)
    (roots : w'.roots = u'.roots) (mounted : w'.mounted = u'.mounted) : Mirrors u' w' := by
  have wf : WellFormed w.store := mirrors.store.wf mirrors.wf
  obtain ⟨more, extended⟩ := evolves.tasks
  obtain ⟨more', extended'⟩ := evolves'.tasks
  have new : more = more' := by
    have all := store.scheduled
    rw [← extended, ← extended', mirrors.store.scheduled] at all
    exact List.append_cancel_left all
  have late (a : Nat) (member : a ∈ more') : a < u'.store.heap.length := by
    apply evolves'.wf.scheduled a
    rw [← extended']
    exact List.mem_append_right _ member
  refine ⟨evolves'.wf, store, ?_, roots, mounted, ?_, ?_⟩
  · intro root id
    have heaps := registerIn_congr (fun a member =>
      Evolves.registrations (store.evolves evolves'.wf) evolves'.wf a (late a member)) w.settled
    rw [settled_evolve wf mirrors.ran evolves ran listeners extended,
      settled_evolve mirrors.wf mirrors.ran' evolves' ran' listeners' extended', new, heaps]
    exact foldl_registerIn_same more' (mirrors.settled root id)
  · rw [ran]
    exact Nat.le_trans mirrors.ran evolves.tasks.length_le
  · rw [ran']
    exact Nat.le_trans mirrors.ran' evolves'.tasks.length_le

theorem Mirrors.task {u w : World} (mirrors : Mirrors u w) (sound : w.Sound) : Mirrors u w.task := by
  have settled := task_settled w
  have ran := sound.task.ran
  have fields : w.task.store = w.store ∧ w.task.roots = w.roots ∧ w.task.mounted = w.mounted := by
    obtain ⟨_, same⟩ | ⟨_, _, _, _, same, _⟩ := task_cases w
    · rw [same]
      exact ⟨rfl, rfl, rfl⟩
    · rw [same]
      exact ⟨rfl, rfl, rfl⟩
  obtain ⟨store, roots, mounted⟩ := fields
  exact ⟨mirrors.wf, store ▸ mirrors.store, settled ▸ mirrors.settled, roots.trans mirrors.roots,
    mounted.trans mirrors.mounted, ran, mirrors.ran'⟩

theorem Mirrors.mount {u w : World} (mirrors : Mirrors u w) (page : String) (payload : Json) :
    Mirrors (u.mount page payload) (w.mount page payload) := by
  have wf : WellFormed w.store := mirrors.store.wf mirrors.wf
  have ends := rootElement_ends payload (channelName page) w.store wf
  have ends' := rootElement_ends payload (channelName page) u.store mirrors.wf
  have outcome := rootElement_matched payload (channelName page) u.store w.store mirrors.store
  unfold World.mount
  rw [mirrors.mounted]
  by_cases used : page ∈ u.mounted
  · simpa only [used, if_true] using mirrors
  · simp only [used, if_false]
    cases left : rootElement payload (channelName page) u.store with
    | ok root s =>
      cases right : rootElement payload (channelName page) w.store with
      | ok root' s' =>
        simp only [left, right] at outcome
        obtain ⟨rfl, store⟩ := outcome
        have built := (ends.ok right).1
        have built' := (ends'.ok left).1
        refine mirrors.evolve (built'.grown.evolves built'.wf) (built.grown.evolves built.wf) store rfl rfl rfl rfl ?_ rfl
        simp only [mirrors.roots]
      | error fault s' =>
        simp only [left, right] at outcome
        exact outcome.elim
    | error fault s =>
      cases right : rootElement payload (channelName page) w.store with
      | ok root' s' =>
        simp only [left, right] at outcome
        exact outcome.elim
      | error fault' s' =>
        simp only [left, right] at outcome
        obtain ⟨grown, wf', _⟩ := ends.error right
        obtain ⟨grown', wf'', _⟩ := ends'.error left
        refine mirrors.evolve (grown'.evolves wf'') (grown.evolves wf') outcome.2 rfl rfl rfl rfl mirrors.roots rfl

theorem Mirrors.batch {u w : World} (mirrors : Mirrors u w) (root : Nat) (entries : List (String × Json))
    (clock : Nat → Int) (timely : timelyAll (w.listeners root) w.ran root entries clock w.store = true) :
    Mirrors (u.promptAll root entries)
      { w with store := finalState (emitAll (w.listeners root) entries clock w.store) } := by
  induction entries generalizing u w clock with
  | nil => exact mirrors
  | cons entry rest ih =>
    obtain ⟨id, value⟩ := entry
    simp only [timelyAll, Bool.and_eq_true, List.all_eq_true, Bool.or_eq_true, bne_iff_ne] at timely
    obtain ⟨now, later⟩ := timely
    have wf : WellFormed w.store := mirrors.store.wf mirrors.wf
    -- with no task waiting for the id, the registry already holds what it will hold
    have reached : (w.listeners root).get? id = (u.settled root).get? id := by
      rw [← mirrors.settled]
      refine (registerIn_get w.pending (fun a member reaches => ?_) w.listeners).symm
      exact (now a member).resolve_left (not_not.mpr reaches)
    have outcome := emit_matched reached value 0 (clock 0) u.store w.store mirrors.store
    have evolves := emit_evolves wf (w.listeners root) id value (clock 0)
    have evolves' := emit_evolves mirrors.wf (u.settled root) id value 0
    simp only [promptAll, emitAll, Bind.bind, EStateM.bind]
    cases left : emit (u.settled root) id value 0 u.store with
    | ok _ s =>
      cases right : emit (w.listeners root) id value (clock 0) w.store with
      | ok _ s' =>
        simp only [left, right] at outcome later ⊢
        have next : Mirrors { u with store := s } { w with store := s' } :=
          mirrors.evolve (evolves'.ok left) (evolves.ok right) outcome.2 rfl rfl rfl rfl mirrors.roots mirrors.mounted
        exact ih next _ later
      | error fault s' =>
        simp only [left, right] at outcome
        exact outcome.elim
    | error fault s =>
      cases right : emit (w.listeners root) id value (clock 0) w.store with
      | ok _ s' =>
        simp only [left, right] at outcome
        exact outcome.elim
      | error fault' s' =>
        simp only [left, right] at outcome ⊢
        exact mirrors.evolve (evolves'.error left) (evolves.error right) outcome.2 rfl rfl rfl rfl mirrors.roots
          mirrors.mounted

theorem Mirrors.settle {u w : World} (mirrors : Mirrors u w) : Mirrors u.settle w :=
  { mirrors with
    settled := by
      have same : u.settle.settled = u.settled := by
        rw [World.settled, show u.settle.pending = [] from List.drop_length]
        rfl
      rw [same]
      exact mirrors.settled
    ran' := Nat.le_refl _ }

theorem deregister_settled {w : World} {e : Nat} (apart : w.Unawaited e) (root : Nat) (id : String) :
    ((w.deregister e).settled root).get? id = if w.Bears e root id then none else (w.settled root).get? id := by
  obtain ⟨listeners, same, get⟩ := deregister_spec w e
  rw [same]
  show ((w.pending.foldl (registerIn w.store.heap) listeners) root).get? id = _
  split
  case isTrue bears =>
    rw [registerIn_get w.pending fun a member reaches named => ?_, get, if_pos bears]
    exact apart a member (reaches.trans bears.1.symm) (named.trans bears.2.symm)
  case isFalse other =>
    exact foldl_registerIn_same w.pending (by rw [get, if_neg other])

theorem Mirrors.bears {u w : World} (mirrors : Mirrors u w) (a root : Nat) (id : String) :
    w.Bears a root id ↔ u.Bears a root id := by
  rcases Nat.lt_or_ge a u.store.heap.length with bound | out
  · obtain ⟨named, reaches⟩ := Evolves.registrations (mirrors.store.evolves mirrors.wf) mirrors.wf a bound
    rw [Bears, Bears, named, reaches]
  · have out' : w.store.heap.length ≤ a := by
      rw [mirrors.store.length]
      exact out
    simp [Bears, List.getElem?_eq_none out, List.getElem?_eq_none out']

theorem Mirrors.deregister {u w : World} (mirrors : Mirrors u w) (ran : u.pending = []) {e : Nat}
    (unawaited : w.Unawaited e) : Mirrors (u.deregister e) (w.deregister e) := by
  have apart : u.Unawaited e := fun a member => absurd (ran ▸ member) List.not_mem_nil
  have settled (root : Nat) (id : String) :
      ((w.deregister e).settled root).get? id = ((u.deregister e).settled root).get? id := by
    rw [deregister_settled unawaited, deregister_settled apart, mirrors.settled]
    exact if_congr (mirrors.bears e root id) rfl rfl
  obtain ⟨listeners, same, _⟩ := deregister_spec w e
  obtain ⟨listeners', same', _⟩ := deregister_spec u e
  rw [same, same'] at settled ⊢
  exact { mirrors with settled }

theorem Mirrors.frameOp {u w : World} (mirrors : Mirrors u w) (ran : u.pending = []) (op : FrameOp)
    (undisturbed : w.Undisturbed op) : Mirrors (u.frameOp op) (w.frameOp op) := by
  have wf : WellFormed w.store := mirrors.store.wf mirrors.wf
  have after : Mirrors { u with store := u.store.frameOp op } { w with store := w.store.frameOp op } :=
    mirrors.evolve (frameOp_evolves mirrors.wf op) (frameOp_evolves wf op) (mirrors.store.frameOp op) rfl rfl rfl rfl
      mirrors.roots mirrors.mounted
  cases op with
  | attach e => exact after
  | build e => exact after
  | detach e =>
    rw [Undisturbed, mirrors.store.builders] at undisturbed
    simp only [World.frameOp, mirrors.store.builders]
    split
    case isFalse => exact after
    case isTrue dropped => exact after.deregister ran (undisturbed dropped)

theorem Mirrors.frame {u w : World} (mirrors : Mirrors u w) (ran : u.pending = []) (ops : List FrameOp)
    (timely : Run.Along World.frameOp Undisturbed w ops) : Mirrors (u.frame ops) (w.frame ops) := by
  have folded : Mirrors (ops.foldl World.frameOp u) (ops.foldl World.frameOp w) := by
    induction ops generalizing u w with
    | nil => exact mirrors
    | cons op rest ih =>
      have still : (u.frameOp op).pending = [] := by
        obtain ⟨store, same, _⟩ := frameOp_rest u op
        rw [pending, store, same, frameOp_scheduled]
        exact ran
      exact ih (mirrors.frameOp ran op timely.1) still timely.2
  exact ⟨folded.wf, folded.store, folded.settled, folded.roots, folded.mounted, folded.ran, folded.ran'⟩

theorem Mirrors.step {u w : World} (mirrors : Mirrors u w) (sound : w.Sound) (event : Event)
    (timely : w.Timely event) : Mirrors ((event.input.map u.prompt).getD u) (w.step event) := by
  cases event with
  | mount page payload => exact mirrors.mount page payload
  | task => exact mirrors.task sound
  | frame ops => exact mirrors.settle.frame List.drop_length ops timely
  | update page data clock =>
    simp only [Event.input, Option.map_some, Option.getD_some, prompt, World.step, World.update]
    have same : w.roots.get? page = u.roots.get? page := by rw [mirrors.roots]
    simp only [Timely, timelyUpdate] at timely
    rw [same] at timely ⊢
    cases object : data.asMap with
    | none => exact mirrors
    | some entries =>
      cases mounted : u.roots.get? page with
      | none => exact mirrors
      | some root =>
        simp only [object, mounted] at timely ⊢
        exact mirrors.batch root entries.entries clock timely

theorem Mirrors.run {u w : World} (mirrors : Mirrors u w) (sound : w.Sound) (events : List Event)
    (timely : Run.Along World.step Timely w events) :
    Mirrors ((events.filterMap Event.input).foldl prompt u) (Run.final World.step w events) := by
  induction events generalizing u w with
  | nil => exact mirrors
  | cons event rest ih =>
    have next := ih (mirrors.step sound event timely.1) (sound.step event) timely.2
    cases said : event.input <;> simpa [said, Run.final] using next

end Mirror

end World

end Sano.Render
