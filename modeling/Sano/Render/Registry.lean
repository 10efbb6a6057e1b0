import Sano.Render.Evolution

namespace Sano.Render

section Trees

def treeStep (heap : List Element) (tree : Nat → List Nat) (a : Nat) : List Nat :=
  match heap[a]? with
  | none => []
  | some el => a :: el.links.flatMap fun b => if a < b then tree b else []

def treeOf (heap : List Element) : Nat → List Nat :=
  Recursion.fix (treeStep heap) [] fun a => heap.length - a

theorem treeStep_local (heap : List Element) : Recursion.Local (treeStep heap) fun a => heap.length - a := by
  intro f g a same
  unfold treeStep
  cases found : heap[a]? with
  | none => rfl
  | some el =>
    have bound : a < heap.length := (List.getElem?_eq_some_iff.mp found).1
    have below : (fun b => if a < b then f b else []) = fun b => if a < b then g b else [] := by
      funext b
      by_cases later : a < b
      · simp only [later, if_true]
        exact same b (Nat.sub_lt_sub_left bound later)
      · simp only [later, if_false]
    simp only [below]

theorem mem_treeOf_links {heap : List Element} {a c : Nat} {el : Element} (linked : Linked heap)
    (found : heap[a]? = some el) : c ∈ treeOf heap a ↔ c = a ∨ ∃ b ∈ el.links, c ∈ treeOf heap b := by
  have unfolded : treeOf heap a = treeStep heap (treeOf heap) a := Recursion.fix_eq (treeStep_local heap) _ _
  rw [unfolded]
  simp only [treeStep, found, List.mem_cons, List.mem_flatMap]
  constructor
  · rintro (here | ⟨b, member, below⟩)
    · exact .inl here
    · rw [if_pos (linked a el found b member).1] at below
      exact .inr ⟨b, member, below⟩
  · rintro (here | ⟨b, member, below⟩)
    · exact .inl here
    · exact .inr ⟨b, member, by rwa [if_pos (linked a el found b member).1]⟩

theorem mem_treeOf {heap : List Element} (linked : Linked heap) (root a : Nat) (bound : root < heap.length) :
    a ∈ treeOf heap root ↔ InTree heap root a := by
  generalize distance : heap.length - root = n
  induction n using Nat.strongRecOn generalizing root with
  | ind n ih =>
    obtain ⟨el, found⟩ : ∃ el, heap[root]? = some el := ⟨_, List.getElem?_eq_getElem bound⟩
    have below (b : Nat) (member : b ∈ el.links) : a ∈ treeOf heap b ↔ InTree heap b a := by
      obtain ⟨later, inside⟩ := linked root el found b member
      exact ih (heap.length - b) (by omega) b inside rfl
    rw [mem_treeOf_links linked found]
    constructor
    · rintro (rfl | ⟨b, member, inside⟩)
      · exact ⟨[], rfl⟩
      · obtain ⟨path, reached⟩ := (below b member).mp inside
        obtain ⟨step, next⟩ := links_next member
        exact ⟨step :: path, (follow_cons found next path).trans reached⟩
    · rintro ⟨path, reached⟩
      cases path with
      | nil =>
        cases reached
        exact .inl rfl
      | cons step rest =>
        obtain ⟨el', b, found', next, later⟩ := follow_cons_some reached
        cases Option.some.inj (found.symm.trans found')
        exact .inr ⟨b, next_mem next, (below b (next_mem next)).mpr ⟨rest, later⟩⟩

theorem inTree_scheduled {s : Store} (wf : WellFormed s) {root a : Nat} (task : root ∈ s.scheduled)
    (inTree : InTree s.heap root a) : a ∈ s.scheduled := by
  obtain ⟨path, reached⟩ := inTree
  rcases List.eq_nil_or_concat path with rfl | ⟨before, step, rfl⟩
  · cases reached
    exact task
  · rw [List.concat_eq_append] at reached
    obtain ⟨b, owner, _, held, next⟩ := follow_last reached
    exact ((wf.sound b owner held).links a (next_mem next)).2.1

end Trees

namespace World

section Conditions

def idOf (w : World) (a : Nat) : Option String := w.store.heap[a]?.map Element.id

def UniqueIds (w : World) : Prop :=
  ∀ entry ∈ w.roots.entries, ((treeOf w.store.heap entry.2).map w.idOf).Nodup

def Free (w : World) (e : Nat) (except : List Nat) : Prop :=
  ∀ entry ∈ w.roots.entries, rootOf w.store.heap e = some entry.2 →
    ∀ a ∈ treeOf w.store.heap entry.2, a ∉ except → a ∉ w.pending → w.idOf a ≠ w.idOf e

def Drops (w : World) : FrameOp → Prop
  | .detach e => e ∈ w.store.builders.map Builder.element → w.Free e []
  | _ => True

/-- A registration task does not overwrite, and a dropped builder does not
    remove, the registration of an element of the current tree. -/
def Clear (w : World) : Event → Prop
  | .task => ∀ e ∈ w.store.scheduled[w.ran]?, w.Free e [e]
  | .frame ops => Run.Along frameOp Drops w ops
  | _ => True

instance (w : World) : Decidable w.UniqueIds :=
  inferInstanceAs (Decidable (∀ entry ∈ w.roots.entries, _))

instance (w : World) (e : Nat) (except : List Nat) : Decidable (w.Free e except) :=
  inferInstanceAs (Decidable (∀ entry ∈ w.roots.entries, _))

instance (w : World) : (op : FrameOp) → Decidable (w.Drops op)
  | .attach _ => isTrue trivial
  | .detach e => inferInstanceAs (Decidable (e ∈ w.store.builders.map Builder.element → w.Free e []))
  | .build _ => isTrue trivial

instance (w : World) : (event : Event) → Decidable (w.Clear event)
  | .mount _ _ => isTrue trivial
  | .update _ _ _ => isTrue trivial
  | .task => inferInstanceAs (Decidable (∀ e ∈ w.store.scheduled[w.ran]?, w.Free e [e]))
  | .frame ops => inferInstanceAs (Decidable (Run.Along frameOp Drops w ops))

instance (w : World) : Decidable w.Quiet :=
  inferInstanceAs (Decidable (w.pending = [] ∧ w.rebuild = false ∧ ∀ b ∈ w.store.builders, b.dirty = false))

end Conditions

section Invariant

structure Tracked (w : World) : Prop where
  sound : w.Sound
  tree : ∀ page root a (el : Element), w.roots.get? page = some root → InTree w.store.heap root a →
    w.store.heap[a]? = some el → a ∈ w.pending ∨ (w.listeners root).get? el.id = some a

variable {w v : World}

theorem Tracked.evolve (tracked : w.Tracked) (evolves : Evolves w.store v.store) (ran : v.ran = w.ran)
    (listeners : v.listeners = w.listeners) (sound : v.Sound)
    (roots : ∀ page root, v.roots.get? page = some root →
      w.roots.get? page = some root ∨ w.store.heap.length ≤ root) : v.Tracked where
  sound := sound
  tree page root a el mounted inTree found := by
    obtain ⟨task, _⟩ := sound.roots page root mounted
    obtain ⟨more, extended⟩ := evolves.tasks
    have waiting : v.pending = w.pending ++ more := by
      simp only [pending, ran, ← extended]
      exact List.drop_append_of_le_length tracked.sound.ran
    rw [waiting, listeners]
    rcases Nat.lt_or_ge a w.store.heap.length with old | new
    · obtain ⟨path, reached⟩ := inTree
      have above := follow_le sound.wf.linked path reached
      have before := (roots page root mounted).resolve_right (by omega)
      obtain ⟨held, cell⟩ : ∃ held, w.store.heap[a]? = some held := ⟨_, List.getElem?_eq_getElem old⟩
      obtain ⟨el', found', kept⟩ := evolves.cells a held cell
      cases Option.some.inj (found.symm.trans found')
      rw [kept.id]
      rcases tracked.tree page root a held before (evolves.inTree old ⟨path, reached⟩) cell with waits | known
      · exact .inl (List.mem_append_left _ waits)
      · exact .inr known
    · have scheduled := inTree_scheduled sound.wf task inTree
      rw [← extended] at scheduled
      rcases List.mem_append.mp scheduled with early | late
      · have bound := tracked.sound.wf.scheduled a early
        omega
      · exact .inl (List.mem_append_right _ late)

theorem Free.apart {e : Nat} {except : List Nat} (free : w.Free e except) (sound : w.Sound) {page : String}
    {root a : Nat} {el x : Element} (mounted : w.roots.get? page = some root) (inTree : InTree w.store.heap root a)
    (found : w.store.heap[a]? = some el) (counts : a ∉ except) (registered : a ∉ w.pending)
    (held : w.store.heap[e]? = some x) (reaches : rootOf w.store.heap e = some root) : el.id ≠ x.id := by
  obtain ⟨task, _⟩ := sound.roots page root mounted
  have member := (mem_treeOf sound.wf.linked root a (sound.wf.scheduled root task)).mpr inTree
  have different := free (page, root) (LinkedMap.get?_eq_some.mp mounted) reaches a member counts registered
  simpa [idOf, found, held] using different

theorem Tracked.task (tracked : w.Tracked) (clear : w.Clear .task) : w.task.Tracked := by
  have sound := tracked.sound.task
  obtain ⟨_, still⟩ | ⟨e, listeners, next, waiting, same, get⟩ := task_cases w
  · rw [still]
    exact tracked
  rw [same] at sound ⊢
  have free := clear e (by simp [next])
  refine ⟨sound, fun page root a el mounted inTree found => ?_⟩
  change w.store.heap[a]? = some el at found
  by_cases here : a = e
  · subst here
    obtain ⟨_, owner, cell, kind⟩ := tracked.sound.roots page root mounted
    have bears : w.Bears a root el.id := ⟨rootOf_inTree tracked.sound.wf cell kind inTree, by simp [found]⟩
    refine .inr ?_
    rw [get, if_pos bears]
  · by_cases waits : a ∈ w.pending
    · rw [waiting] at waits
      exact .inl ((List.mem_cons.mp waits).resolve_left here)
    · have known := (tracked.tree page root a el mounted inTree found).resolve_left waits
      have apart : ¬ w.Bears e root el.id := by
        rintro ⟨reaches, named⟩
        obtain ⟨x, held, shared⟩ := Option.map_eq_some_iff.mp named
        exact free.apart tracked.sound mounted inTree found (by simpa using here) waits held reaches shared.symm
      refine .inr ?_
      rw [get, if_neg apart]
      exact known

theorem Tracked.frameOp (tracked : w.Tracked) (op : FrameOp) (drops : w.Drops op) : (w.frameOp op).Tracked := by
  have sound := tracked.sound.frameOp op
  have after : { w with store := w.store.frameOp op }.Tracked :=
    tracked.evolve (frameOp_evolves tracked.sound.wf op) rfl rfl
      (tracked.sound.evolve (frameOp_evolves tracked.sound.wf op) rfl rfl fun _ _ held => .inl held)
      fun _ _ held => .inl held
  cases op with
  | attach e => exact after
  | build e => exact after
  | detach e =>
    unfold World.frameOp at sound ⊢
    simp only at sound ⊢
    by_cases listed : e ∈ w.store.builders.map Builder.element
    · have free := drops listed
      obtain ⟨listeners, same, get⟩ := deregister_spec { w with store := w.store.frameOp (.detach e) } e
      simp only [listed, if_true, same] at sound ⊢
      refine ⟨sound, fun page root a el mounted inTree found => ?_⟩
      change w.store.heap[a]? = some el at found
      by_cases waits : a ∈ w.pending
      · exact .inl waits
      · have known := (tracked.tree page root a el mounted inTree found).resolve_left waits
        have apart : ¬ { w with store := w.store.frameOp (.detach e) }.Bears e root el.id := by
          rintro ⟨reaches, named⟩
          obtain ⟨x, held, shared⟩ := Option.map_eq_some_iff.mp named
          exact free.apart tracked.sound mounted inTree found (by simp) waits held reaches shared.symm
        refine .inr ?_
        rw [get, if_neg apart]
        exact known
    · simpa only [listed, if_false] using after

theorem Tracked.frame (tracked : w.Tracked) (ops : List FrameOp) (clear : Run.Along World.frameOp Drops w ops) :
    (w.frame ops).Tracked := by
  have folded := Run.invariant World.frameOp Drops Tracked (fun _ op tracked drops => tracked.frameOp op drops)
    ops w tracked clear _ (Run.final_mem_states w ops)
  exact ⟨⟨folded.sound.wf, folded.sound.ran, folded.sound.listeners, folded.sound.roots⟩, folded.tree⟩

theorem Tracked.mount (tracked : w.Tracked) (page : String) (payload : Json) : (w.mount page payload).Tracked := by
  have sound := tracked.sound.mount page payload
  have ends := rootElement_ends payload (channelName page) w.store tracked.sound.wf
  unfold World.mount at sound ⊢
  split at sound
  · rename_i used
    simpa only [used, if_true] using tracked
  · rename_i unused
    simp only [unused, if_false]
    split at sound
    · rename_i root s made
      have built := (ends.ok made).1
      refine tracked.evolve (built.grown.evolves built.wf) rfl rfl sound fun other old held => ?_
      simp only [LinkedMap.get?_insert] at held
      split at held
      · cases held
        exact .inr (Nat.le_of_eq built.address.symm)
      · exact .inl held
    · rename_i fault s failed
      obtain ⟨grown, wf, _⟩ := ends.error failed
      exact tracked.evolve (grown.evolves wf) rfl rfl sound fun _ _ held => .inl held

theorem Tracked.step (tracked : w.Tracked) (event : Event) (clear : w.Clear event) : (w.step event).Tracked := by
  cases event with
  | mount page payload => exact tracked.mount page payload
  | update page data clock =>
    obtain ⟨evolves, ran, listeners, roots⟩ := update_store tracked.sound.wf page data clock
    exact tracked.evolve evolves ran listeners (tracked.sound.update page data clock) fun _ _ held => .inl (roots ▸ held)
  | task => exact tracked.task clear
  | frame ops => exact tracked.frame ops clear

end Invariant

/-- In a run whose steps are all clear, every element of a current tree is
    registered once no task and no frame is pending, and is reached by its id. -/
theorem tree_registered (events : List Event) (clear : Run.Along step Clear {} events) :
    ∀ w ∈ Run.states step {} events, w.Quiet → ∀ page root a el, w.roots.get? page = some root →
      InTree w.store.heap root a → w.store.heap[a]? = some el →
      (w.listeners root).get? el.id = some a ∧ ∀ value now, emit (w.listeners root) el.id value now =
        (do let renderObject ← cast value.asMap
            Render.update a renderObject now) := by
  intro w member quiet page root a el mounted inTree found
  have initial : ({} : World).Tracked := ⟨start_sound, fun _ _ _ _ mounted => by cases mounted⟩
  have tracked := Run.invariant step Clear Tracked (fun _ event tracked clear => tracked.step event clear) events _
    initial clear w member
  have known := (tracked.tree page root a el mounted inTree found).resolve_left (by simp [quiet.1])
  exact ⟨known, fun value now => by simp [emit, known]⟩

def shownEvents : List Event :=
  [.mount "page" samplePage, .task, .task, .task, .frame [.attach 1, .attach 2]]

theorem tree_registered_text : ((run shownEvents).listeners 0).get? "x" = some 2 := by
  have held : (run shownEvents).idOf 2 = some "x" := by decide +kernel
  obtain ⟨el, found, id⟩ := Option.map_eq_some_iff.mp held
  have inTree : InTree (run shownEvents).store.heap 0 2 := ⟨[.child 0, .child 0], by decide +kernel⟩
  have registered := tree_registered shownEvents (by decide +kernel) (run shownEvents) (Run.final_mem_states _ _)
    (by decide +kernel) "page" 0 2 el (by decide +kernel) inTree found
  rw [← id]
  exact registered.1

def resentChild : Json :=
  .map [("r", .map [("children", .list [
    .map [("id", .string "x"), ("tag", .string "text"), ("props", .map [("data", .string "new")])]])])]

def resentEvents : List Event :=
  shownEvents ++ [.update "page" resentChild fun _ => 5, .task, .frame [.build 1, .detach 2, .attach 3]]

theorem resent_child_unregistered : (∀ w ∈ Run.states step {} resentEvents, w.UniqueIds) ∧
    (run resentEvents).Quiet ∧ ∃ root a el, (run resentEvents).roots.get? "page" = some root ∧
      InTree (run resentEvents).store.heap root a ∧ (run resentEvents).store.heap[a]? = some el ∧
      ((run resentEvents).listeners root).get? el.id = none := by
  have held : (run resentEvents).idOf 3 = some "x" := by decide +kernel
  obtain ⟨el, found, id⟩ := Option.map_eq_some_iff.mp held
  refine ⟨by decide +kernel, by decide +kernel, 0, 3, el, by decide +kernel, ⟨[.child 0, .child 0], by decide +kernel⟩,
    found, ?_⟩
  rw [id]
  decide +kernel

end World

end Sano.Render
