import Sano.Render.View

namespace Sano.Render

section Evolution

structure Element.Follows (bound : Nat) (el el' : Element) : Prop where
  kind : el'.kind = el.kind
  id : el'.id = el.id
  tag : el'.tag = el.tag
  parent : el'.parent = el.parent
  links : ∀ b ∈ el'.links, b ∈ el.links ∨ bound ≤ b

structure Evolves (s t : Store) : Prop where
  wf : WellFormed t
  longer : s.heap.length ≤ t.heap.length
  tasks : s.scheduled <+: t.scheduled
  fresh : ∀ b ∈ t.scheduled, b ∈ s.scheduled ∨ s.heap.length ≤ b
  cells : ∀ (a : Nat) (el : Element), s.heap[a]? = some el →
    ∃ el', t.heap[a]? = some el' ∧ el.Follows s.heap.length el'

variable {s t u : Store} {e : Nat} {el : Element} {change : Change}

theorem Evolves.refl (wf : WellFormed s) : Evolves s s :=
  ⟨wf, Nat.le_refl _, List.prefix_refl _, fun _ task => .inl task,
    fun _ el found => ⟨el, found, rfl, rfl, rfl, rfl, fun _ member => .inl member⟩⟩

theorem Evolves.trans (first : Evolves s t) (second : Evolves t u) : Evolves s u where
  wf := second.wf
  longer := Nat.le_trans first.longer second.longer
  tasks := first.tasks.trans second.tasks
  fresh b task := by
    rcases second.fresh b task with old | new
    · exact first.fresh b old
    · exact .inr (Nat.le_trans first.longer new)
  cells a el found := by
    obtain ⟨el', found', kept⟩ := first.cells a el found
    obtain ⟨el'', found'', kept'⟩ := second.cells a el' found'
    refine ⟨el'', found'', kept'.kind.trans kept.kind, kept'.id.trans kept.id, kept'.tag.trans kept.tag,
      kept'.parent.trans kept.parent, fun b member => ?_⟩
    rcases kept'.links b member with old | new
    · exact kept.links b old
    · exact .inr (Nat.le_trans first.longer new)

theorem Grown.evolves (grown : Grown s t) (wf : WellFormed t) : Evolves s t :=
  ⟨wf, grown.longer, grown.tasks, grown.fresh,
    fun _ el found => ⟨el, grown.found found, rfl, rfl, rfl, rfl, fun _ member => .inl member⟩⟩

theorem Repainted.evolves (repainted : Repainted s t) (wf : WellFormed s) : Evolves s t where
  wf := repainted.wf wf
  longer := Nat.le_of_eq repainted.length.symm
  tasks := by simp [repainted.scheduled]
  fresh b task := .inl (by rwa [repainted.scheduled] at task)
  cells a el found := by
    obtain ⟨el', found', same⟩ := repainted.cells a el found
    have links : el'.links = el.links := by simp [Element.links, same.children, same.fragment]
    exact ⟨el', found', same.kind, same.id, same.tag, same.parent, fun b member => .inl (links ▸ member)⟩

theorem Edited.evolves (edited : Edited s t e el change) (found : s.heap[e]? = some el) : Evolves s t where
  wf := edited.wf
  longer := edited.longer
  tasks := edited.tasks
  fresh := edited.fresh
  cells a held here := by
    by_cases same : a = e
    · subst same
      cases Option.some.inj (found.symm.trans here)
      obtain ⟨kids, cell, shown⟩ := edited.cell
      refine ⟨_, cell, rfl, rfl, rfl, rfl, fun b member => ?_⟩
      rcases List.mem_append.mp member with child | fragment
      · cases asked : change.children with
        | none =>
          simp only [asked] at shown
          subst shown
          exact .inl (List.mem_append_left _ child)
        | some docs =>
          simp only [asked] at shown
          obtain ⟨list, rfl, _, new⟩ := shown
          exact .inr (new b child).1
      · exact .inl (List.mem_append_right _ fragment)
    · have bound : a < s.heap.length := (List.getElem?_eq_some_iff.mp here).1
      exact ⟨held, (edited.others a bound same).trans here, rfl, rfl, rfl, rfl, fun _ member => .inl member⟩

theorem Updated.evolves (updated : Updated s u e el change) (found : s.heap[e]? = some el) : Evolves s u := by
  obtain ⟨t, edited, repainted⟩ := updated
  exact (edited.evolves found).trans (repainted.evolves edited.wf)

theorem update_evolves (wf : WellFormed s) (e : Nat) (renderObject : Object) (now : Int) :
    Ends (update e renderObject now) s (fun _ t => Evolves s t) fun _ t => Evolves s t := by
  cases found : s.heap[e]? with
  | none =>
    have failed : update e renderObject now s = .error .nullCheck s := by
      have missing : read e s = .error .nullCheck s := by simp [read, found]
      simp [update, Bind.bind, EStateM.bind, missing]
    unfold Ends
    rw [failed]
    exact .refl wf
  | some el =>
    apply (update_ends wf found renderObject now).mono
    · rintro _ t ⟨change, _, updated⟩
      exact updated.evolves found
    · rintro _ t ⟨_, change, updated⟩
      exact updated.evolves found

theorem emit_evolves (wf : WellFormed s) (listeners : LinkedMap String Nat) (id : String) (value : Json)
    (now : Int) : Ends (emit listeners id value now) s (fun _ t => Evolves s t) fun _ t => Evolves s t := by
  apply ends_cast
  · intro renderObject _
    cases listeners.get? id with
    | none => exact .refl wf
    | some e => exact update_evolves wf e renderObject now
  · exact fun _ => .refl wf

theorem emitAll_evolves (wf : WellFormed s) (listeners : LinkedMap String Nat) (entries : List (String × Json))
    (clock : Nat → Int) :
    Ends (emitAll listeners entries clock) s (fun _ t => Evolves s t) fun _ t => Evolves s t := by
  induction entries generalizing s clock with
  | nil => exact .refl wf
  | cons entry rest ih =>
    apply Ends.bind
    apply (emit_evolves wf listeners entry.1 entry.2 (clock 0)).mono
    · intro _ t first
      apply (ih first.wf fun n => clock (n + 1)).mono
      · exact fun _ u later => first.trans later
      · exact fun _ u later => first.trans later
    · exact fun _ t first => first

end Evolution

section Roots

theorem rootStep_local (heap : List Element) : Recursion.Local (rootStep heap) id := by
  intro f g a same
  unfold rootStep
  cases heap[a]? with
  | none => rfl
  | some el =>
    have below : (fun p => if p < a then f p else none) = fun p => if p < a then g p else none := by
      funext p
      by_cases lower : p < a
      · simp only [lower, if_true]
        exact same p lower
      · simp only [lower, if_false]
    simp only [below]

theorem rootOf_eq (heap : List Element) (a : Nat) : rootOf heap a = rootStep heap (rootOf heap) a :=
  Recursion.fix_eq (rootStep_local heap) _ _

theorem rootOf_root {heap : List Element} {a : Nat} {el : Element} (found : heap[a]? = some el)
    (kind : el.kind = .root) : rootOf heap a = some a := by
  rw [rootOf_eq]
  simp [rootStep, found, kind]

theorem rootOf_child {s : Store} (wf : WellFormed s) {a p : Nat} {el : Element} (found : s.heap[a]? = some el)
    (parent : el.parent = some p) : rootOf s.heap a = rootOf s.heap p := by
  have sound := wf.sound a el found
  have inner : el.kind ≠ .root := fun root => by simp [sound.orphan.mp root] at parent
  rw [rootOf_eq]
  simp [rootStep, found, inner, parent, sound.parent p parent]

theorem Evolves.rootOf {s t : Store} (evolves : Evolves s t) (wf : WellFormed s) (a : Nat)
    (bound : a < s.heap.length) : rootOf t.heap a = rootOf s.heap a := by
  induction a using Nat.strongRecOn with
  | ind a ih =>
    obtain ⟨el, found⟩ : ∃ el, s.heap[a]? = some el := ⟨_, List.getElem?_eq_getElem bound⟩
    obtain ⟨el', found', kept⟩ := evolves.cells a el found
    cases parent : el.parent with
    | none =>
      have root := (wf.sound a el found).orphan.mpr parent
      rw [rootOf_root found root, rootOf_root found' (kept.kind.trans root)]
    | some p =>
      have lower := (wf.sound a el found).parent p parent
      rw [rootOf_child wf found parent, rootOf_child evolves.wf found' (kept.parent.trans parent)]
      exact ih p lower (Nat.lt_trans lower bound)

theorem rootOf_inTree {s : Store} (wf : WellFormed s) {root a : Nat} {el : Element}
    (found : s.heap[root]? = some el) (kind : el.kind = .root) (inTree : InTree s.heap root a) :
    rootOf s.heap a = some root := by
  obtain ⟨path, reached⟩ := inTree
  induction path using List.reverseRecOn generalizing a with
  | nil =>
    cases reached
    exact rootOf_root found kind
  | append_singleton path step ih =>
    obtain ⟨b, owner, earlier, held, next⟩ := follow_last reached
    obtain ⟨_, _, cell, here, parent⟩ := (wf.sound b owner held).links a (next_mem next)
    rw [rootOf_child wf here parent]
    exact ih earlier

theorem Evolves.inTree {s t : Store} (evolves : Evolves s t) {root a : Nat} (bound : a < s.heap.length)
    (inTree : InTree t.heap root a) : InTree s.heap root a := by
  obtain ⟨path, reached⟩ := inTree
  induction path using List.reverseRecOn generalizing a with
  | nil =>
    cases reached
    exact ⟨[], rfl⟩
  | append_singleton path step ih =>
    obtain ⟨b, owner, earlier, held, next⟩ := follow_last reached
    have member := next_mem next
    have lower := (evolves.wf.linked b owner held a member).1
    have inside : b < s.heap.length := Nat.lt_trans lower bound
    obtain ⟨before, reachedBefore⟩ := ih inside earlier
    obtain ⟨old, found⟩ : ∃ old, s.heap[b]? = some old := ⟨_, List.getElem?_eq_getElem inside⟩
    obtain ⟨owner', held', kept⟩ := evolves.cells b old found
    cases Option.some.inj (held.symm.trans held')
    have link : a ∈ old.links := (kept.links a member).resolve_right (by omega)
    obtain ⟨step', next'⟩ := links_next link
    refine ⟨before ++ [step'], ?_⟩
    rw [follow_append, reachedBefore, Option.bind_some, follow_cons found next']
    rfl

end Roots

section Worlds

namespace World

structure Sound (w : World) : Prop where
  wf : WellFormed w.store
  ran : w.ran ≤ w.store.scheduled.length
  listeners : ∀ root id e, (w.listeners root).get? id = some e →
    ∃ el, w.store.heap[e]? = some el ∧ el.id = id ∧ rootOf w.store.heap e = some root
  roots : ∀ page root, w.roots.get? page = some root →
    root ∈ w.store.scheduled ∧ ∃ el, w.store.heap[root]? = some el ∧ el.kind = .root

theorem Sound.evolve {w v : World} (sound : w.Sound) (evolves : Evolves w.store v.store) (ran : v.ran = w.ran)
    (listeners : v.listeners = w.listeners)
    (roots : ∀ page root, v.roots.get? page = some root → w.roots.get? page = some root ∨
      (root ∈ v.store.scheduled ∧ ∃ el, v.store.heap[root]? = some el ∧ el.kind = .root)) : v.Sound where
  wf := evolves.wf
  ran := by
    rw [ran]
    exact Nat.le_trans sound.ran evolves.tasks.length_le
  listeners root id e held := by
    rw [listeners] at held
    obtain ⟨el, found, same, root⟩ := sound.listeners root id e held
    obtain ⟨el', found', kept⟩ := evolves.cells e el found
    refine ⟨el', found', kept.id.trans same, ?_⟩
    rw [evolves.rootOf sound.wf e (List.getElem?_eq_some_iff.mp found).1, root]
  roots page root held := by
    rcases roots page root held with old | new
    · obtain ⟨task, el, found, kind⟩ := sound.roots page root old
      obtain ⟨el', found', kept⟩ := evolves.cells root el found
      exact ⟨evolves.tasks.subset task, el', found', kept.kind.trans kind⟩
    · exact new

def Bears (w : World) (a root : Nat) (id : String) : Prop :=
  rootOf w.store.heap a = some root ∧ w.store.heap[a]?.map Element.id = some id

instance (w : World) (a root : Nat) (id : String) : Decidable (w.Bears a root id) :=
  inferInstanceAs (Decidable (_ ∧ _))

theorem replaced_get {w : World} {a target : Nat} {el : Element} (found : w.store.heap[a]? = some el)
    (reaches : rootOf w.store.heap a = some target) {registry : LinkedMap String Nat} {value : Option Nat}
    (get : ∀ id, registry.get? id = if el.id = id then value else (w.listeners target).get? id) (root : Nat)
    (id : String) :
    (Function.update w.listeners target registry root).get? id =
      if w.Bears a root id then value else (w.listeners root).get? id := by
  by_cases same : root = target
  · subst same
    simp [Bears, found, reaches, get]
  · simp [Bears, reaches, same, Ne.symm same]

theorem register_spec (w : World) (a : Nat) :
    ∃ listeners, w.register a = { w with listeners } ∧
      ∀ root id, (listeners root).get? id = if w.Bears a root id then some a else (w.listeners root).get? id := by
  unfold register
  cases found : w.store.heap[a]? with
  | none => exact ⟨w.listeners, rfl, by simp [Bears, found]⟩
  | some el =>
    cases reaches : rootOf w.store.heap a with
    | none => exact ⟨w.listeners, rfl, by simp [Bears, reaches]⟩
    | some target =>
      exact ⟨_, rfl, replaced_get found reaches (LinkedMap.get?_insert _ el.id · a)⟩

theorem deregister_spec (w : World) (a : Nat) :
    ∃ listeners, w.deregister a = { w with listeners } ∧
      ∀ root id, (listeners root).get? id = if w.Bears a root id then none else (w.listeners root).get? id := by
  unfold deregister
  cases found : w.store.heap[a]? with
  | none => exact ⟨w.listeners, rfl, by simp [Bears, found]⟩
  | some el =>
    cases reaches : rootOf w.store.heap a with
    | none => exact ⟨w.listeners, rfl, by simp [Bears, reaches]⟩
    | some target =>
      exact ⟨_, rfl, replaced_get found reaches (LinkedMap.get?_remove _ el.id)⟩

/-- The next task registers its element, or no task is waiting. -/
theorem task_cases (w : World) :
    (w.store.scheduled[w.ran]? = none ∧ w.task = w) ∨ ∃ e listeners, w.store.scheduled[w.ran]? = some e ∧
      w.pending = e :: w.store.scheduled.drop (w.ran + 1) ∧ w.task = { w with ran := w.ran + 1, listeners } ∧
      ∀ root id, (listeners root).get? id = if w.Bears e root id then some e else (w.listeners root).get? id := by
  unfold World.task
  cases next : w.store.scheduled[w.ran]? with
  | none => exact .inl ⟨rfl, rfl⟩
  | some e =>
    obtain ⟨bound, here⟩ := List.getElem?_eq_some_iff.mp next
    obtain ⟨listeners, registers, get⟩ := register_spec { w with ran := w.ran + 1 } e
    refine .inr ⟨e, listeners, rfl, ?_, registers, get⟩
    rw [pending, ← here]
    exact List.drop_eq_getElem_cons bound

theorem Sound.deregister {w : World} (sound : w.Sound) (e : Nat) : (w.deregister e).Sound := by
  obtain ⟨listeners, same, get⟩ := deregister_spec w e
  rw [same]
  refine ⟨sound.wf, sound.ran, fun root id a held => ?_, sound.roots⟩
  rw [get] at held
  split at held
  · cases held
  · exact sound.listeners root id a held

theorem Sound.task {w : World} (sound : w.Sound) : w.task.Sound := by
  obtain ⟨_, same⟩ | ⟨e, listeners, next, _, same, get⟩ := task_cases w
  · rw [same]
    exact sound
  · rw [same]
    refine ⟨sound.wf, (List.getElem?_eq_some_iff.mp next).1, fun root id a held => ?_, sound.roots⟩
    rw [get] at held
    split at held
    · rename_i bears
      cases held
      obtain ⟨el, found, named⟩ := Option.map_eq_some_iff.mp bears.2
      exact ⟨el, found, named, bears.1⟩
    · exact sound.listeners root id a held

theorem frameOp_evolves {s : Store} (wf : WellFormed s) (op : FrameOp) : Evolves s (s.frameOp op) where
  wf := wf.congr (frameOp_heap s op) (frameOp_scheduled s op)
  longer := Nat.le_of_eq (by rw [frameOp_heap])
  tasks := by simp [frameOp_scheduled]
  fresh b task := .inl (by rwa [frameOp_scheduled] at task)
  cells a el found :=
    ⟨el, by rw [frameOp_heap, found], rfl, rfl, rfl, rfl, fun _ member => .inl member⟩

theorem Sound.frameOp {w : World} (sound : w.Sound) (op : FrameOp) : (w.frameOp op).Sound := by
  have after : { w with store := w.store.frameOp op }.Sound :=
    sound.evolve (frameOp_evolves sound.wf op) rfl rfl fun _ _ held => .inl held
  unfold World.frameOp
  split
  · split
    · exact after.deregister _
    · exact after
  · exact after

theorem deregister_rest (w : World) (e : Nat) :
    (w.deregister e).store = w.store ∧ (w.deregister e).ran = w.ran ∧ (w.deregister e).roots = w.roots := by
  obtain ⟨listeners, same, _⟩ := deregister_spec w e
  rw [same]
  exact ⟨rfl, rfl, rfl⟩

theorem frameOp_rest (w : World) (op : FrameOp) :
    (w.frameOp op).store = w.store.frameOp op ∧ (w.frameOp op).ran = w.ran ∧ (w.frameOp op).roots = w.roots := by
  unfold World.frameOp
  split
  · split
    · exact deregister_rest _ _
    · exact ⟨rfl, rfl, rfl⟩
  · exact ⟨rfl, rfl, rfl⟩

theorem Sound.frame {w : World} (sound : w.Sound) (ops : List FrameOp) : (w.frame ops).Sound := by
  have folded : (ops.foldl World.frameOp w).Sound := by
    induction ops generalizing w with
    | nil => exact sound
    | cons op rest ih => exact ih (sound.frameOp op)
  exact ⟨folded.wf, folded.ran, folded.listeners, folded.roots⟩

theorem Sound.mount {w : World} (sound : w.Sound) (page : String) (payload : Json) :
    (w.mount page payload).Sound := by
  have ends := rootElement_ends payload (channelName page) w.store sound.wf
  unfold World.mount
  split
  · exact sound
  · split
    · rename_i root s made
      obtain ⟨built, ⟨el, found, kind, _⟩, _⟩ := ends.ok made
      refine sound.evolve (built.grown.evolves built.wf) rfl rfl fun other old held => ?_
      simp only [LinkedMap.get?_insert] at held
      split at held
      · cases held
        exact .inr ⟨built.task, el, found, kind⟩
      · exact .inl held
    · rename_i fault s failed
      obtain ⟨grown, wf, _⟩ := ends.error failed
      exact sound.evolve (grown.evolves wf) rfl rfl fun _ _ held => .inl held

theorem update_store {w : World} (wf : WellFormed w.store) (page : String) (data : Json) (clock : Nat → Int) :
    Evolves w.store (w.update page data clock).store ∧ (w.update page data clock).ran = w.ran ∧
      (w.update page data clock).listeners = w.listeners ∧ (w.update page data clock).roots = w.roots := by
  unfold World.update
  split
  · exact ⟨Ends.final (emitAll_evolves wf _ _ clock), rfl, rfl, rfl⟩
  · exact ⟨.refl wf, rfl, rfl, rfl⟩

theorem Sound.update {w : World} (sound : w.Sound) (page : String) (data : Json) (clock : Nat → Int) :
    (w.update page data clock).Sound := by
  obtain ⟨evolves, ran, listeners, roots⟩ := update_store sound.wf page data clock
  exact sound.evolve evolves ran listeners fun _ _ held => .inl (roots ▸ held)

theorem Sound.step {w : World} (sound : w.Sound) (event : Event) : (w.step event).Sound := by
  cases event with
  | mount page payload => exact sound.mount page payload
  | update page data clock => exact sound.update page data clock
  | task => exact sound.task
  | frame ops => exact sound.frame ops

theorem start_sound : ({} : World).Sound where
  wf := empty_wellFormed
  ran := Nat.le_refl _
  listeners _ _ _ held := by cases held
  roots _ _ held := by cases held

theorem run_sound (events : List Event) : (run events).Sound :=
  Run.final_always step Sound (fun _ event sound => sound.step event) events {} start_sound

end World

end Worlds

end Sano.Render
