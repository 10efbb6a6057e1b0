import Sano.Render.Placement

namespace Sano.Render.World

section Conditions

def leaving (s : Store) (el : Element) : List Nat := (el.children.getD []).flatMap (treeOf s.heap)

def Gentle (root ran : Nat) (listeners : LinkedMap String Nat) (s : Store) (entry : String × Json) (now : Int) : Prop :=
  ∀ renderObject ∈ entry.2.asMap, ∀ e ∈ listeners.get? entry.1, ∀ el ∈ s.heap[e]?,
    (renderObject.field "children").asList.isSome = true →
      (changeOf el renderObject).isSome = true ∧ e ∈ treeOf s.heap root ∧
      ∀ a ∈ leaving s el, a ∉ s.scheduled.drop ran ∧ a ∈ s.builders.map Builder.element ∧
        Signalled s (repainter e el) now

def GentleAll (root ran : Nat) (listeners : LinkedMap String Nat) : List (String × Json) → (Nat → Int) → Store → Prop
  | [], _, _ => True
  | entry :: rest, clock, s =>
    Gentle root ran listeners s entry (clock 0) ∧
      match emit listeners entry.1 entry.2 (clock 0) s with
      | .ok _ t => GentleAll root ran listeners rest (fun n => clock (n + 1)) t
      | .error _ _ => True

def Settled (w : World) : Prop :=
  ∀ entry ∈ w.roots.entries, ∀ b ∈ w.store.builders, rootOf w.store.heap b.element = some entry.2 →
    b.element ∈ treeOf w.store.heap entry.2

def Unmounts (w : World) : Event → Prop
  | .frame ops => (w.frame ops).Settled
  | _ => True

def Careful (w : World) : Event → Prop
  | .update page data clock => ∀ entries ∈ data.asMap, ∀ root ∈ w.roots.get? page,
      GentleAll root w.ran (w.listeners root) entries.entries clock w.store
  | _ => True

def Orderly (w : World) (event : Event) : Prop := w.Unmounts event ∧ w.Careful event

instance (s : Store) (x : Nat) (now : Int) : Decidable (Signalled s x now) :=
  inferInstanceAs (Decidable (∃ b ∈ s.builders, _))

instance (root ran : Nat) (listeners : LinkedMap String Nat) (s : Store) (entry : String × Json) (now : Int) :
    Decidable (Gentle root ran listeners s entry now) :=
  inferInstanceAs (Decidable (∀ renderObject ∈ entry.2.asMap, _))

instance decidableGentleAll (root ran : Nat) (listeners : LinkedMap String Nat) :
    (entries : List (String × Json)) → (clock : Nat → Int) → (s : Store) →
      Decidable (GentleAll root ran listeners entries clock s)
  | [], _, _ => isTrue trivial
  | entry :: rest, clock, s =>
    match emitted : emit listeners entry.1 entry.2 (clock 0) s with
    | .ok _ t =>
      have := decidableGentleAll root ran listeners rest (fun n => clock (n + 1)) t
      decidable_of_iff (Gentle root ran listeners s entry (clock 0) ∧
        GentleAll root ran listeners rest (fun n => clock (n + 1)) t) (by simp only [GentleAll, emitted])
    | .error _ _ => decidable_of_iff (Gentle root ran listeners s entry (clock 0)) (by simp [GentleAll, emitted])

instance (w : World) : Decidable w.Settled :=
  inferInstanceAs (Decidable (∀ entry ∈ w.roots.entries, _))

instance (w : World) : (event : Event) → Decidable (w.Unmounts event)
  | .mount _ _ => isTrue trivial
  | .update _ _ _ => isTrue trivial
  | .task => isTrue trivial
  | .frame ops => inferInstanceAs (Decidable (w.frame ops).Settled)

instance (w : World) : (event : Event) → Decidable (w.Careful event)
  | .mount _ _ => isTrue trivial
  | .update page data clock => inferInstanceAs (Decidable (∀ entries ∈ data.asMap, ∀ root ∈ w.roots.get? page,
      GentleAll root w.ran (w.listeners root) entries.entries clock w.store))
  | .task => isTrue trivial
  | .frame _ => isTrue trivial

instance (w : World) (event : Event) : Decidable (w.Orderly event) :=
  inferInstanceAs (Decidable (_ ∧ _))

end Conditions

section Invariant

structure Current (w : World) : Prop where
  sound : w.Sound
  builders : ∀ b ∈ w.store.builders, b.element < w.store.heap.length
  waiting : ∀ page root e, w.roots.get? page = some root → e ∈ w.pending → rootOf w.store.heap e = some root →
    InTree w.store.heap root e
  entries : ∀ page root id e, w.roots.get? page = some root → (w.listeners root).get? id = some e →
    InTree w.store.heap root e ∨ e ∈ w.store.builders.map Builder.element

def Due (w : World) : Prop := w.rebuild = true ∨ (∃ b ∈ w.store.builders, b.dirty = true) ∨ w.Settled

variable {w v : World}

theorem Sound.bound (sound : w.Sound) {page : String} {root : Nat} (mounted : w.roots.get? page = some root) :
    root < w.store.heap.length := by
  obtain ⟨task, _⟩ := sound.roots page root mounted
  exact sound.wf.scheduled root task

theorem settled_iff (sound : w.Sound) :
    w.Settled ↔ ∀ page root, w.roots.get? page = some root → ∀ b ∈ w.store.builders,
      rootOf w.store.heap b.element = some root → InTree w.store.heap root b.element := by
  constructor
  · intro settled page root mounted b member reaches
    exact (mem_treeOf sound.wf.linked root _ (sound.bound mounted)).mp
      (settled (page, root) (LinkedMap.get?_eq_some.mp mounted) b member reaches)
  · rintro settled ⟨page, root⟩ entry b member reaches
    have mounted := LinkedMap.get?_eq_some.mpr entry
    exact (mem_treeOf sound.wf.linked root _ (sound.bound mounted)).mpr (settled page root mounted b member reaches)

theorem mem_leaving {s : Store} (wf : WellFormed s) {e a : Nat} {el : Element} (found : s.heap[e]? = some el) :
    a ∈ leaving s el ↔ ∃ c ∈ el.children.getD [], InTree s.heap c a := by
  rw [leaving, List.mem_flatMap]
  refine exists_congr fun c => and_congr_right fun child => ?_
  exact mem_treeOf wf.linked c a (wf.linked e el found c (List.mem_append_left _ child)).2

/-- In a quiet state nothing is left to unmount, so every registration is of an element in the tree. -/
theorem Current.registered (current : w.Current) (due : w.Due) (quiet : w.Quiet) {page : String} {root e : Nat}
    {id : String} (mounted : w.roots.get? page = some root) (held : (w.listeners root).get? id = some e) :
    InTree w.store.heap root e := by
  obtain ⟨_, still, clean⟩ := quiet
  have settled : w.Settled := by
    rcases due with rebuild | ⟨b, member, dirty⟩ | settled
    · rw [still] at rebuild
      cases rebuild
    · rw [clean b member] at dirty
      cases dirty
    · exact settled
  rcases current.entries page root id e mounted held with inTree | shown
  · exact inTree
  · obtain ⟨b, member, rfl⟩ := List.mem_map.mp shown
    obtain ⟨_, _, _, reaches⟩ := current.sound.listeners root id _ held
    exact (settled_iff current.sound).mp settled page root mounted b member reaches

theorem rootOf_le {heap : List Element} {a root : Nat} (reaches : rootOf heap a = some root) : root ≤ a := by
  induction a using Nat.strongRecOn with
  | ind a ih =>
    rw [rootOf_eq, rootStep] at reaches
    split at reaches
    · cases reaches
    · split at reaches
      · cases reaches
        exact Nat.le_refl _
      · obtain ⟨p, _, above⟩ := Option.bind_eq_some_iff.mp reaches
        split at above
        · rename_i lower
          exact Nat.le_trans (ih p lower above) (Nat.le_of_lt lower)
        · cases above

/-- A message may make objects and take elements out of the tree, as long as the new ones that
    wait are in their tree and the others are registered and mounted. -/
theorem Current.evolve (current : w.Current) (evolves : Evolves w.store v.store) (sound : v.Sound)
    (ran : v.ran = w.ran) (listeners : v.listeners = w.listeners)
    (builders : v.store.builders.map Builder.element = w.store.builders.map Builder.element)
    (roots : ∀ page root, v.roots.get? page = some root →
      w.roots.get? page = some root ∨ w.store.heap.length ≤ root)
    (tasks : ∃ more, v.store.scheduled = w.store.scheduled ++ more ∧ ∀ b ∈ more, ∀ page root,
      v.roots.get? page = some root → rootOf v.store.heap b = some root → InTree v.store.heap root b)
    (leaves : ∀ root a, InTree w.store.heap root a → InTree v.store.heap root a ∨
      (a ∉ w.pending ∧ a ∈ w.store.builders.map Builder.element)) : v.Current := by
  have old {root a : Nat} (bound : a < w.store.heap.length) (reaches : rootOf v.store.heap a = some root) :
      rootOf w.store.heap a = some root ∧ root < w.store.heap.length := by
    rw [evolves.rootOf current.sound.wf a bound] at reaches
    exact ⟨reaches, Nat.lt_of_le_of_lt (rootOf_le reaches) bound⟩
  refine ⟨sound, fun b member => ?_, fun page root e mounted waits reaches => ?_, fun page root id e mounted held => ?_⟩
  · obtain ⟨before, there, same⟩ := exists_builder builders member
    rw [← same]
    exact Nat.lt_of_lt_of_le (current.builders before there) evolves.longer
  · obtain ⟨more, scheduled, placed⟩ := tasks
    rw [pending, ran, scheduled, List.drop_append_of_le_length current.sound.ran] at waits
    rcases List.mem_append.mp waits with early | late
    · have bound := current.sound.wf.scheduled e (List.mem_of_mem_drop early)
      obtain ⟨before, small⟩ := old bound reaches
      have mounted' := (roots page root mounted).resolve_right (by omega)
      rcases leaves root e (current.waiting page root e mounted' early before) with kept | ⟨registered, _⟩
      · exact kept
      · exact absurd early registered
    · exact placed e late page root mounted reaches
  · rw [listeners] at held
    obtain ⟨el, found, _, reaches⟩ := current.sound.listeners root id e held
    have small := Nat.lt_of_le_of_lt (rootOf_le reaches) (List.getElem?_eq_some_iff.mp found).1
    have mounted' := (roots page root mounted).resolve_right (by omega)
    rw [builders]
    rcases current.entries page root id e mounted' held with inTree | shown
    · exact (leaves root e inTree).imp_right And.right
    · exact .inr shown

theorem Due.evolve (due : w.Due) (current : w.Current) (evolves : Evolves w.store v.store) (sound : v.Sound)
    (rebuild : w.rebuild = true → v.rebuild = true) (marks : Marks w.store v.store)
    (roots : ∀ page root, v.roots.get? page = some root → w.roots.get? page = some root)
    (kept : ∀ root a, InTree w.store.heap root a → InTree v.store.heap root a) : v.Due := by
  rcases due with again | dirty | settled
  · exact .inl (rebuild again)
  · exact .inr (.inl (marks.2 dirty))
  · refine .inr (.inr ((settled_iff sound).mpr fun page root mounted b member reaches => ?_))
    obtain ⟨before, there, same⟩ := exists_builder marks.1 member
    rw [← same] at reaches ⊢
    rw [evolves.rootOf current.sound.wf _ (current.builders before there)] at reaches
    exact kept root _ ((settled_iff current.sound).mp settled page root (roots page root mounted) before there reaches)

end Invariant

section Steps

variable {w : World}

theorem Current.calm (current : w.Current) (due : w.Due) {t : Store} (evolves : Evolves w.store t)
    (calm : Calm w.store t) : { w with store := t }.Current ∧ { w with store := t }.Due := by
  have sound : { w with store := t }.Sound := current.sound.evolve evolves rfl rfl fun _ _ held => .inl held
  refine ⟨current.evolve evolves sound rfl rfl calm.marks.1 (fun _ _ held => .inl held) ⟨[], ?_, by simp⟩ fun root a inTree => ?_,
    due.evolve current evolves sound id calm.marks (fun _ _ held => held) fun root a inTree => calm.keeps.inTree inTree⟩
  · simp [calm.scheduled]
  · exact .inl (calm.keeps.inTree inTree)

/-- An entry with new children. -/
theorem Current.replace (current : w.Current) (due : w.Due) {page : String} {root e : Nat} {el : Element}
    (mounted : w.roots.get? page = some root) (found : w.store.heap[e]? = some el)
    (inTree : InTree w.store.heap root e) {renderObject : Object} {now : Int} {t : Store}
    (returned : Render.update e renderObject now w.store = .ok () t)
    (gentle : ∀ a ∈ leaving w.store el, a ∉ w.pending ∧ a ∈ w.store.builders.map Builder.element ∧
      Signalled w.store (repainter e el) now) : { w with store := t }.Current ∧ { w with store := t }.Due := by
  have wf := current.sound.wf
  have evolves : Evolves w.store t := (update_evolves wf e renderObject now).ok returned
  have sound : { w with store := t }.Sound := current.sound.evolve evolves rfl rfl fun _ _ held => .inl held
  have sprouts := update_sprouts wf found returned
  have marks := update_marks wf found returned
  have leaves (root a : Nat) (before : InTree w.store.heap root a) :
      InTree t.heap root a ∨ a ∈ leaving w.store el := by
    rw [mem_leaving wf found]
    exact update_leaves wf found returned before
  have stays : InTree t.heap root e := by
    refine (leaves root e inTree).resolve_right fun gone => ?_
    obtain ⟨c, child, path, reached⟩ := (mem_leaving wf found).mp gone
    have above := (wf.linked e el found c (List.mem_append_left _ child)).1
    have := follow_le wf.linked path reached
    omega
  obtain ⟨more, scheduled, new⟩ := sprouts.tasks
  constructor
  · refine current.evolve evolves sound rfl rfl marks.1 (fun _ _ held => .inl held) ⟨more, scheduled, ?_⟩ ?_
    · intro b member other target mounted' reaches
      have bound := evolves.wf.scheduled b (by rw [scheduled]; exact List.mem_append_right _ member)
      have below := inTree_trans stays (sprouts.below b (new b member) bound)
      obtain ⟨_, owner, cell, kind⟩ := sound.roots page root mounted
      rw [rootOf_inTree evolves.wf cell kind below] at reaches
      cases reaches
      exact below
    · intro target a before
      exact (leaves target a before).imp_right fun gone => ⟨(gentle a gone).1, (gentle a gone).2.1⟩
  · by_cases any : ∃ a, a ∈ leaving w.store el
    · obtain ⟨a, gone⟩ := any
      exact .inr (.inl (update_signals wf found returned (gentle a gone).2.2))
    · refine due.evolve current evolves sound id marks (fun _ _ held => held) fun target a before => ?_
      exact (leaves target a before).resolve_right fun gone => any ⟨a, gone⟩

theorem Current.emit (current : w.Current) (due : w.Due) {page : String} {root : Nat}
    (mounted : w.roots.get? page = some root) {entry : String × Json} {now : Int}
    (gentle : Gentle root w.ran (w.listeners root) w.store entry now) :
    Ends (emit (w.listeners root) entry.1 entry.2 now) w.store
      (fun _ t => { w with store := t }.Current ∧ { w with store := t }.Due)
      (fun _ t => { w with store := t }.Current ∧ { w with store := t }.Due) := by
  refine ends_cast ?_ fun _ => ⟨current, due⟩
  intro renderObject cast
  split
  · rename_i e held
    obtain ⟨el, found, _⟩ := current.sound.listeners root entry.1 e held
    cases children : (renderObject.field "children").asList with
    | none =>
      apply ((update_evolves current.sound.wf e renderObject now).both (update_calm found children now)).mono
      · exact fun _ t both => current.calm due both.1 both.2
      · exact fun _ t both => current.calm due both.1 both.2
    | some items =>
      obtain ⟨accepted, member, careful⟩ := gentle renderObject cast e held el found (by rw [children]; rfl)
      obtain ⟨change, asked⟩ := Option.isSome_iff_exists.mp accepted
      obtain ⟨t, returned, _⟩ := update_returns current.sound.wf found asked now
      have inTree := (mem_treeOf current.sound.wf.linked root e (current.sound.bound mounted)).mp member
      unfold Ends
      rw [returned]
      exact current.replace due mounted found inTree returned careful
  · exact Ends.pure ⟨current, due⟩

theorem Current.emitAll {page : String} {root : Nat} (mounted : w.roots.get? page = some root)
    (entries : List (String × Json)) (clock : Nat → Int) (s : Store) (current : { w with store := s }.Current)
    (due : { w with store := s }.Due) (gentle : GentleAll root w.ran (w.listeners root) entries clock s) :
    Ends (emitAll (w.listeners root) entries clock) s
      (fun _ t => { w with store := t }.Current ∧ { w with store := t }.Due)
      (fun _ t => { w with store := t }.Current ∧ { w with store := t }.Due) := by
  induction entries generalizing clock s with
  | nil => exact Ends.pure ⟨current, due⟩
  | cons entry rest ih =>
    obtain ⟨here, later⟩ := gentle
    have first := Current.emit current due mounted here
    apply Ends.bind
    unfold Ends at first ⊢
    cases result : Render.emit (w.listeners root) entry.1 entry.2 (clock 0) s with
    | error fault t =>
      simp only [result] at first
      exact first
    | ok value t =>
      simp only [result] at first later
      exact ih _ t first.1 first.2 later

theorem Current.update (current : w.Current) (due : w.Due) {page : String} {data : Json} {clock : Nat → Int}
    (careful : w.Careful (.update page data clock)) :
    (w.update page data clock).Current ∧ (w.update page data clock).Due := by
  unfold World.update
  split
  · rename_i entries root accepted mounted
    exact Ends.final (Current.emitAll mounted entries.entries clock w.store current due
      (careful entries accepted root mounted))
  · exact ⟨current, due⟩

theorem Placed.rootOf_new {s t : Store} (placed : Placed s t none) {b root : Nat} (new : s.heap.length ≤ b)
    (reaches : rootOf t.heap b = some root) : s.heap.length ≤ root := by
  induction b using Nat.strongRecOn with
  | ind b ih =>
    rw [rootOf_eq, rootStep] at reaches
    split at reaches
    · cases reaches
    · rename_i el found
      split at reaches
      · cases reaches
        exact new
      · obtain ⟨p, parent, above⟩ := Option.bind_eq_some_iff.mp reaches
        rcases placed.parents b el new found with orphan | ⟨q, owner, inside⟩
        · rw [orphan] at parent
          cases parent
        · cases parent.symm.trans owner
          split at above
          · rename_i lower
            exact ih p lower inside above
          · cases above

theorem Current.mount (current : w.Current) (due : w.Due) (page : String) (payload : Json) :
    (w.mount page payload).Current ∧ (w.mount page payload).Due := by
  have sound := current.sound.mount page payload
  have wf := current.sound.wf
  have ends := (rootElement_ends payload (channelName page) w.store wf).both
    (rootElement_places payload (channelName page) w.store wf)
  unfold World.mount at sound ⊢
  split at sound
  · rename_i used
    simpa only [used, if_true] using ⟨current, due⟩
  · rename_i unused
    simp only [unused, if_false]
    split at sound
    · rename_i root s made
      obtain ⟨⟨built, ⟨el, cell, kind, _⟩, _⟩, placed, spread⟩ := ends.ok made
      obtain ⟨more, scheduled, new⟩ := placed.tasks
      refine ⟨current.evolve (built.grown.evolves built.wf) sound rfl rfl (by rw [built.grown.builders]) ?_
        ⟨more, scheduled, ?_⟩ fun _ _ inTree => .inl ((built.grown.keeps 0).inTree inTree), .inl rfl⟩
      · intro other old held
        simp only [LinkedMap.get?_insert] at held
        split at held
        · cases held
          exact .inr (Nat.le_of_eq built.address.symm)
        · exact .inl held
      · intro b member other target _ reaches
        have bound := built.wf.scheduled b (by rw [scheduled]; exact List.mem_append_right _ member)
        have inTree : InTree s.heap root b := by
          refine spread.inTree built.wf (fun k top => ?_) bound (new b member)
          rw [List.mem_singleton.mp top]
          exact ⟨[], rfl⟩
        rw [rootOf_inTree built.wf cell kind inTree] at reaches
        cases reaches
        exact inTree
    · rename_i fault s failed
      obtain ⟨⟨grown, wf', _⟩, placed⟩ := ends.error failed
      have evolves := grown.evolves wf'
      obtain ⟨more, scheduled, new⟩ := placed.tasks
      constructor
      · refine current.evolve evolves sound rfl rfl (by rw [grown.builders]) (fun _ _ held => .inl held)
          ⟨more, scheduled, fun b member other target mounted reaches => ?_⟩
          fun _ _ inTree => .inl ((grown.keeps 0).inTree inTree)
        have above := Placed.rootOf_new placed (new b member) reaches
        have below := current.sound.bound mounted
        omega
      · exact due.evolve current evolves sound id (marks_of_eq grown.builders) (fun _ _ held => held)
          fun _ _ inTree => (grown.keeps 0).inTree inTree

theorem Current.task (current : w.Current) (due : w.Due) : w.task.Current ∧ w.task.Due := by
  have sound := current.sound.task
  obtain ⟨_, still⟩ | ⟨e, listeners, _, waiting, same, get⟩ := task_cases w
  · rw [still]
    exact ⟨current, due⟩
  rw [same] at sound ⊢
  refine ⟨⟨sound, current.builders, fun page root a mounted waits => ?_, fun page root id a mounted held => ?_⟩, due⟩
  · refine current.waiting page root a mounted ?_
    rw [waiting]
    exact List.mem_cons_of_mem _ waits
  · rw [get] at held
    split at held
    · rename_i bears
      cases held
      exact .inl (current.waiting page root e mounted (by rw [waiting]; exact List.mem_cons_self) bears.1)
    · exact current.entries page root id a mounted held

theorem Sound.deregistered (sound : w.Sound) {root e a : Nat} {id : String}
    (held : ((w.deregister e).listeners root).get? id = some a) : a ≠ e ∧ (w.listeners root).get? id = some a := by
  obtain ⟨listeners, same, get⟩ := deregister_spec w e
  rw [same, get] at held
  split at held
  · cases held
  · rename_i apart
    refine ⟨fun own => ?_, held⟩
    subst own
    obtain ⟨el, found, rfl, reaches⟩ := sound.listeners root id a held
    exact apart ⟨reaches, by simp [found]⟩

/-- A builder that is dropped takes the registration of its element with it. -/
theorem Current.frameOp (current : w.Current) (op : FrameOp) : (w.frameOp op).Current := by
  obtain ⟨store, ran, roots⟩ := frameOp_rest w op
  have after : { w with store := w.store.frameOp op }.Sound :=
    current.sound.evolve (frameOp_evolves current.sound.wf op) rfl rfl fun _ _ held => .inl held
  have heap : (w.frameOp op).store.heap = w.store.heap := by rw [store, frameOp_heap]
  have waits : (w.frameOp op).pending = w.pending := by rw [pending, store, ran, frameOp_scheduled, pending]
  refine ⟨current.sound.frameOp op, ?_, ?_, ?_⟩
  · rw [store, frameOp_heap]
    exact mounts_bound w.store op current.builders
  · rw [roots, heap, waits]
    exact current.waiting
  · intro page root id a mounted held
    rw [roots] at mounted
    rw [heap, store]
    cases op with
    | attach e => exact (current.entries page root id a mounted held).imp_right (attach_mounts w.store e a)
    | build e =>
      rw [Store.frameOp, build_mounts]
      exact current.entries page root id a mounted held
    | detach e =>
      have kept : a ≠ e ∧ (w.listeners root).get? id = some a ∨
          e ∉ w.store.builders.map Builder.element ∧ (w.listeners root).get? id = some a := by
        unfold World.frameOp at held
        by_cases listed : e ∈ w.store.builders.map Builder.element
        · simp only [listed, if_true] at held
          exact .inl (after.deregistered held)
        · simp only [listed, if_false] at held
          exact .inr ⟨listed, held⟩
      rcases kept with ⟨other, before⟩ | ⟨unlisted, before⟩
      · exact (current.entries page root id a mounted before).imp_right (detach_mounts w.store other)
      · refine (current.entries page root id a mounted before).imp_right fun shown => ?_
        exact detach_mounts w.store (fun same => unlisted (same ▸ shown)) shown

theorem Current.frame (current : w.Current) (ops : List FrameOp) : (w.frame ops).Current := by
  have folded := Run.final_always World.frameOp Current (fun _ op current => current.frameOp op) ops w current
  exact ⟨current.sound.frame ops, folded.builders, folded.waiting, folded.entries⟩

theorem Current.step (current : w.Current) (due : w.Due) (event : Event) (orderly : w.Orderly event) :
    (w.step event).Current ∧ (w.step event).Due := by
  cases event with
  | mount page payload => exact current.mount due page payload
  | update page data clock => exact current.update due orderly.2
  | task => exact current.task due
  | frame ops => exact ⟨current.frame ops, .inr (.inr orderly.1)⟩

end Steps

/-- In a run whose steps are all orderly, every registration is of an element of the current
    tree under its own id once no task and no frame is pending. -/
theorem no_stale_registration (events : List Event) (orderly : Run.Along step Orderly {} events) :
    ∀ w ∈ Run.states step {} events, w.Quiet → ∀ page root id e, w.roots.get? page = some root →
      (w.listeners root).get? id = some e →
        InTree w.store.heap root e ∧ ∃ el, w.store.heap[e]? = some el ∧ el.id = id := by
  intro w member quiet page root id e mounted held
  have initial : ({} : World).Current ∧ ({} : World).Due := by
    refine ⟨⟨start_sound, ?_, ?_, ?_⟩, .inr (.inr ?_)⟩
    · intro b member
      cases member
    · intro _ _ _ mounted
      cases mounted
    · intro _ _ _ _ mounted
      cases mounted
    · intro _ entry
      cases entry
  obtain ⟨current, due⟩ := Run.invariant step Orderly (fun w => w.Current ∧ w.Due)
    (fun _ event holds orderly => holds.1.step holds.2 event orderly) events _ initial orderly w member
  obtain ⟨el, found, id, _⟩ := current.sound.listeners root id e held
  exact ⟨current.registered due quiet mounted held, el, found, id⟩

def replacedChild : Json :=
  .map [("r", .map [("children", .list [
    .map [("id", .string "y"), ("tag", .string "text"), ("props", .map [("data", .string "new")])]])])]

def replacedEvents : List Event :=
  shownEvents ++ [.update "page" replacedChild fun _ => 5, .task, .frame [.build 1, .detach 2, .attach 3]]

theorem no_stale_registration_row : ((run replacedEvents).listeners 0).get? "y" = some 3 ∧
    InTree (run replacedEvents).store.heap 0 3 := by
  have held : ((run replacedEvents).listeners 0).get? "y" = some 3 := by decide +kernel
  have current := no_stale_registration replacedEvents (by decide +kernel) (run replacedEvents)
    (Run.final_mem_states _ _) (by decide +kernel) "page" 0 "y" 3 (by decide +kernel) held
  exact ⟨held, current.1⟩

def hiddenPage : Json :=
  .map [("id", .string "c"), ("tag", .string "container"), ("children", .list [
    .map [("id", .string "x"), ("tag", .string "text")], .map [("id", .string "y"), ("tag", .string "text")]])]

def hiddenReplaced : Json :=
  .map [("c", .map [("children", .list [.map [("id", .string "z"), ("tag", .string "text")]])])]

def hiddenEvents : List Event :=
  [.mount "page" hiddenPage, .task, .task, .task, .task, .frame [.attach 1, .attach 3],
    .update "page" hiddenReplaced fun _ => 5, .task, .frame [.build 1, .detach 3, .attach 4]]

theorem hidden_child_registered : Run.Along step Unmounts {} hiddenEvents ∧ (run hiddenEvents).Quiet ∧
    ∃ root e, (run hiddenEvents).roots.get? "page" = some root ∧
      ((run hiddenEvents).listeners root).get? "x" = some e ∧ ¬ InTree (run hiddenEvents).store.heap root e ∧
      ∀ a el, InTree (run hiddenEvents).store.heap root a → (run hiddenEvents).store.heap[a]? = some el →
        el.id ≠ "x" := by
  have sound := run_sound hiddenEvents
  have mounted : (run hiddenEvents).roots.get? "page" = some 0 := by decide +kernel
  have tree (a : Nat) := mem_treeOf sound.wf.linked 0 a (sound.bound mounted)
  refine ⟨by decide +kernel, by decide +kernel, 0, 2, mounted, by decide +kernel, ?_, ?_⟩
  · rw [← tree]
    decide +kernel
  · intro a el inTree found same
    have ids : ∀ a ∈ treeOf (run hiddenEvents).store.heap 0, (run hiddenEvents).idOf a ≠ some "x" := by decide +kernel
    apply ids a ((tree a).mpr inTree)
    rw [idOf, found, Option.map_some, same]

end Sano.Render.World
