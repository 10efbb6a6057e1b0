import Sano.Render.Screen

namespace Sano.Render

open Parse Widget

section Model

/-- A child of a root stands for its page: it is mounted and dropped with the view. -/
def topmost (heap : List Element) (e : Nat) : Bool :=
  (heap[e]?.bind Element.parent).any fun p => heap[p]?.any fun el => el.kind = .root

variable (dart : Library)

/-- What the builders ask a frame for: a marked one is run again, what an unmarked one shows is
    mounted, and what none shows is dropped. -/
def Store.Asks (s : Store) : FrameOp → Prop
  | .build e => ∃ b ∈ s.builders, b.element = e ∧ b.dirty = true
  | .attach e => e ∉ s.builders.map Builder.element ∧ ∃ b ∈ s.builders, b.dirty = false ∧ e ∈ b.shows dart s.heap
  | .detach e => e ∈ s.builders.map Builder.element ∧ topmost s.heap e = false ∧
      ∀ b ∈ s.builders, e ∉ b.shows dart s.heap

instance (s : Store) : (op : FrameOp) → Decidable (s.Asks dart op)
  | .build _ => inferInstanceAs (Decidable (∃ b ∈ s.builders, _))
  | .attach _ => inferInstanceAs (Decidable (_ ∧ ∃ b ∈ s.builders, _))
  | .detach _ => inferInstanceAs (Decidable (_ ∧ _ ∧ ∀ b ∈ s.builders, _))

def Store.Driven (s : Store) (ops : List FrameOp) : Prop := Run.Along Store.frameOp (Store.Asks dart) s ops

instance (s : Store) (ops : List FrameOp) : Decidable (s.Driven dart ops) :=
  inferInstanceAs (Decidable (Run.Along _ _ _ _))

def Store.Settled (s : Store) : Prop := ∀ op, ¬ s.Asks dart op

end Model

section Parts

variable {s : Store}

theorem frame_heap (s : Store) (ops : List FrameOp) : (ops.foldl Store.frameOp s).heap = s.heap := by
  induction ops generalizing s with
  | nil => rfl
  | cons op rest ih => exact (ih (s.frameOp op)).trans (frameOp_heap s op)

theorem Shown.frame (shown : Shown s) (ops : List FrameOp) : Shown (ops.foldl Store.frameOp s) := by
  induction ops generalizing s with
  | nil => exact shown
  | cons op rest ih => exact ih (shown.frameOp op)

/-- A child is an element or a scaffold: a fragment has its link from the slot. -/
theorem Shown.child_mountable (shown : Shown s) {a c : Nat} {el : Element} (found : s.heap[a]? = some el)
    (child : c ∈ el.children.getD []) : ∃ cell, s.heap[c]? = some cell ∧ cell.kind.mountable = true := by
  have sound := shown.painted.wf.sound a el found
  obtain ⟨_, task, cell, there, parent⟩ := sound.links c (List.mem_append_left _ child)
  refine ⟨cell, there, ?_⟩
  have inner := (shown.painted.wf.sound c cell there).orphan
  cases kind : cell.kind with
  | element => rfl
  | scaffold => rfl
  | root => simp [inner.mp kind] at parent
  | fragment =>
    obtain ⟨p, owner, above, held, link⟩ := shown.mirrored.held c task cell there kind
    cases Option.some.inj (parent.symm.trans above)
    cases Option.some.inj (found.symm.trans held)
    have once := sound.nodup
    simp only [Element.links, link, Option.toList_some] at once
    exact absurd (List.mem_singleton_self c) (List.disjoint_of_nodup_append once child)

/-- What a widget shows comes after it and is an element or a scaffold. -/
theorem Shown.part_mountable (shown : Shown s) {dart : Library} {a c : Nat} {el : Element}
    (found : s.heap[a]? = some el) {isScaffold : Bool}
    (part : c ∈ (builder dart isScaffold el.tag el.props el.children el.floatingActionButton).parts) :
    a < c ∧ ∃ cell, s.heap[c]? = some cell ∧ cell.kind.mountable = true := by
  have linked := shown.painted.wf.linked
  refine builder_parts (P := fun c => a < c ∧ ∃ cell, s.heap[c]? = some cell ∧ cell.kind.mountable = true) dart
    isScaffold el.props el.children el.floatingActionButton (fun child member => ?_) (fun child button => ?_) part
  · exact ⟨(linked a el found child (List.mem_append_left _ member)).1, shown.child_mountable found member⟩
  · refine ⟨(shown.mirrored.button_later linked found button).1, ?_⟩
    rw [(shown.mirrored.filled a el found).button] at button
    obtain ⟨kids, held, first⟩ := Option.bind_eq_some_iff.mp button
    obtain ⟨f, _, there⟩ := Option.bind_eq_some_iff.mp held
    obtain ⟨cell, cellFound, children⟩ := Option.bind_eq_some_iff.mp there
    exact shown.child_mountable cellFound (by simp [children, List.mem_of_head? first])

theorem Shown.shows_mountable (shown : Shown s) {dart : Library} {b : Builder} (member : b ∈ s.builders)
    (clean : b.dirty = false) {c : Nat} (part : c ∈ b.shows dart s.heap) :
    b.element < c ∧ ∃ cell, s.heap[c]? = some cell ∧ cell.kind.mountable = true := by
  obtain ⟨el, found, _, built⟩ := shown.painted.builders b member
  have built : b.built = el.snapshot := built.resolve_left (by simp [clean])
  rw [Builder.shows, found, Option.map_some, Option.getD_some, Builder.layer, built] at part
  exact shown.part_mountable found part

end Parts

section Passes

variable {dart : Library} {s t : Store} {k : Nat}

theorem build_unmarks {e : Nat} (shown : Shown s) (asked : s.Asks dart (.build e)) :
    (s.build e).builders.countP Builder.dirty < s.builders.countP Builder.dirty := by
  obtain ⟨b, member, rfl, marked⟩ := asked
  obtain ⟨el, found, _⟩ := shown.painted.builders b member
  simp only [Store.build, found]
  obtain ⟨before, after, split⟩ := List.append_of_mem member
  have fewer (builders : List Builder) :
      (builders.map fun c => if c.element = b.element then ⟨b.element, false, el.snapshot⟩ else c).countP
        Builder.dirty ≤ builders.countP Builder.dirty := by
    rw [List.countP_map]
    refine List.countP_mono_left fun c _ marked => ?_
    by_cases same : c.element = b.element
    · simp [same] at marked
    · simpa [same] using marked
  have first := fewer before
  have last := fewer after
  rw [split, List.map_append, List.map_cons, List.countP_append, List.countP_append, List.countP_cons_of_pos marked,
    if_pos rfl, List.countP_cons_of_neg (by simp)]
  omega

/-- The marked builders come first. -/
theorem Shown.build_all (shown : Shown s) (dart : Library) :
    ∃ ops, s.Driven dart ops ∧ ∀ b ∈ (Run.final Store.frameOp s ops).builders, b.dirty = false := by
  obtain ⟨ops, along, _, exhausted⟩ := Run.exists_exhausted Store.frameOp
    (fun s op => s.Asks dart op ∧ ∃ e, op = .build e) Shown (fun s => s.builders.countP Builder.dirty)
    (fun s op shown asked => by
      obtain ⟨asked, e, rfl⟩ := asked
      exact ⟨shown.frameOp (.build e), build_unmarks shown asked⟩) s shown
  refine ⟨ops, along.mono fun _ _ asked => asked.1, fun b member => ?_⟩
  by_contra marked
  exact exhausted (.build b.element) ⟨⟨b, member, rfl, by simpa using marked⟩, b.element, rfl⟩

structure Unmarked (s : Store) : Prop where
  shown : Shown s
  clean : ∀ b ∈ s.builders, b.dirty = false

def Store.Quiet (dart : Library) (s : Store) (a : Nat) : Prop := ¬ s.Asks dart (.attach a) ∧ ¬ s.Asks dart (.detach a)

def others (k : Nat) (builders : List Builder) : List Builder := builders.filter (·.element ≠ k)

theorem Unmarked.attach (unmarked : Unmarked s) (k : Nat) : Unmarked (s.attach k) := by
  refine ⟨unmarked.shown.frameOp (.attach k), fun b member => ?_⟩
  unfold Store.attach at member
  split at member
  · split at member
    · rcases List.mem_append.mp member with old | new
      · exact unmarked.clean b old
      · rw [List.mem_singleton.mp new]
    · exact unmarked.clean b member
  · exact unmarked.clean b member

theorem Unmarked.detach (unmarked : Unmarked s) (k : Nat) : Unmarked (s.detach k) :=
  ⟨unmarked.shown.frameOp (.detach k), fun b member => unmarked.clean b (List.mem_of_mem_eraseP member)⟩

theorem others_attach (s : Store) (k : Nat) : others k (s.attach k).builders = others k s.builders := by
  unfold Store.attach
  split
  · split
    · simp [others]
    · rfl
  · rfl

theorem others_detach (s : Store) (k : Nat) : others k (s.detach k).builders = others k s.builders := by
  simp only [Store.detach, others]
  induction s.builders with
  | nil => rfl
  | cons b rest ih =>
    by_cases same : b.element = k
    · rw [List.eraseP_cons_of_pos (by simpa using same), List.filter_cons_of_neg (by simpa using same)]
    · rw [List.eraseP_cons_of_neg (by simpa using same), List.filter_cons_of_pos (by simpa using same),
        List.filter_cons_of_pos (by simpa using same), ih]

theorem mem_of_others {left right : List Builder} (same : others k left = others k right) {b : Builder}
    (member : b ∈ left) (other : b.element ≠ k) : b ∈ right := by
  have held : b ∈ others k right := by
    rw [← same]
    exact List.mem_filter.mpr ⟨member, by simpa using other⟩
  exact (List.mem_filter.mp held).1

/-- What is asked for an element depends on its own builders and on those of the elements before
    it. -/
theorem Unmarked.asks_before (unmarked : Unmarked s) (after : Unmarked t) (heap : t.heap = s.heap)
    (same : others k t.builders = others k s.builders) {a : Nat} (before : a < k) (quiet : s.Quiet dart a) :
    t.Quiet dart a := by
  have mounted : a ∈ t.builders.map Builder.element ↔ a ∈ s.builders.map Builder.element := by
    constructor
    · intro held
      obtain ⟨b, member, rfl⟩ := List.mem_map.mp held
      exact List.mem_map_of_mem (mem_of_others same member before.ne)
    · intro held
      obtain ⟨b, member, rfl⟩ := List.mem_map.mp held
      exact List.mem_map_of_mem (mem_of_others same.symm member before.ne)
  refine ⟨?_, ?_⟩
  · rintro ⟨missing, b, member, clean, part⟩
    have later := (after.shown.shows_mountable member clean part).1
    rw [heap] at part
    exact quiet.1 ⟨fun held => missing (mounted.mpr held), b, mem_of_others same member (by omega), clean, part⟩
  · rintro ⟨held, bound, unshown⟩
    rw [heap] at bound unshown
    refine quiet.2 ⟨mounted.mp held, bound, fun b member part => ?_⟩
    have later := (unmarked.shown.shows_mountable member (unmarked.clean b member) part).1
    exact unshown b (mem_of_others same.symm member (by omega)) part

structure Turn (dart : Library) (k : Nat) (s t : Store) : Prop where
  unmarked : Unmarked t
  heap : t.heap = s.heap
  others : others k t.builders = others k s.builders
  quiet : t.Quiet dart k

structure Drops (dart : Library) (k : Nat) (s t : Store) : Prop where
  unmarked : Unmarked t
  heap : t.heap = s.heap
  others : others k t.builders = others k s.builders
  unshown : ∀ b ∈ t.builders, k ∉ b.shows dart t.heap

theorem Drops.detach (drops : Drops dart k s t) : Drops dart k s (t.detach k) where
  unmarked := drops.unmarked.detach k
  heap := drops.heap
  others := (others_detach t k).trans drops.others
  unshown b member := drops.unshown b (List.mem_of_mem_eraseP member)

theorem detach_shortens (mounted : k ∈ t.builders.map Builder.element) :
    (t.detach k).builders.length < t.builders.length := by
  obtain ⟨b, member, own⟩ := List.mem_map.mp mounted
  have erased := List.length_eraseP_of_mem (p := fun b => decide (b.element = k)) member (by simpa using own)
  have some := List.length_pos_of_mem member
  simp only [Store.detach]
  omega

/-- What no builder shows is dropped as often as it is mounted. -/
theorem Unmarked.drop (unmarked : Unmarked s) (unshown : ∀ b ∈ s.builders, k ∉ b.shows dart s.heap) :
    ∃ ops, s.Driven dart ops ∧ Turn dart k s (Run.final Store.frameOp s ops) := by
  obtain ⟨ops, along, drops, exhausted⟩ := Run.exists_exhausted Store.frameOp
    (fun t op => t.Asks dart op ∧ op = .detach k) (Drops dart k s) (fun t => t.builders.length)
    (fun t op drops asked => by
      obtain ⟨asked, rfl⟩ := asked
      exact ⟨drops.detach, detach_shortens asked.1⟩) s ⟨unmarked, rfl, rfl, unshown⟩
  refine ⟨ops, along.mono fun _ _ asked => asked.1, drops.unmarked, drops.heap, drops.others, ?_, ?_⟩
  · rintro ⟨_, b, member, _, part⟩
    exact drops.unshown b member part
  · exact fun asked => exhausted (.detach k) ⟨asked, rfl⟩

theorem Unmarked.turn (unmarked : Unmarked s) (dart : Library) (k : Nat) :
    ∃ ops, s.Driven dart ops ∧ Turn dart k s (Run.final Store.frameOp s ops) := by
  by_cases shows : ∃ b ∈ s.builders, k ∈ b.shows dart s.heap
  · obtain ⟨b, member, part⟩ := shows
    by_cases mounted : k ∈ s.builders.map Builder.element
    · refine ⟨[], trivial, unmarked, rfl, rfl, fun asked => asked.1 mounted, fun asked => asked.2.2 b member part⟩
    · have heap : (s.attach k).heap = s.heap := frameOp_heap s (.attach k)
      obtain ⟨_, el, found, mountable⟩ := unmarked.shown.shows_mountable member (unmarked.clean b member) part
      have mounts : (s.attach k).builders = s.builders ++ [⟨k, false, el.snapshot⟩] := by
        simp [Store.attach, found, mountable]
      refine ⟨[.attach k], ⟨⟨mounted, b, member, unmarked.clean b member, part⟩, trivial⟩, unmarked.attach k, heap,
        others_attach s k, fun asked => asked.1 ?_, fun asked => asked.2.2 b ?_ ?_⟩
      · show k ∈ (s.attach k).builders.map Builder.element
        simp [mounts]
      · show b ∈ (s.attach k).builders
        simp [mounts, member]
      · show k ∈ b.shows dart (s.attach k).heap
        rw [heap]
        exact part
  · exact unmarked.drop fun b member part => shows ⟨b, member, part⟩

theorem Unmarked.turns (unmarked : Unmarked s) (dart : Library) (n : Nat) :
    ∃ ops, s.Driven dart ops ∧ Unmarked (Run.final Store.frameOp s ops) ∧
      ∀ a < n, (Run.final Store.frameOp s ops).Quiet dart a := by
  induction n with
  | zero => exact ⟨[], trivial, unmarked, fun a below => absurd below (Nat.not_lt_zero a)⟩
  | succ n ih =>
    obtain ⟨ops, along, between, quiet⟩ := ih
    obtain ⟨more, along', turn⟩ := between.turn dart n
    refine ⟨ops ++ more, along.append along', ?_⟩
    rw [Run.final_append]
    refine ⟨turn.unmarked, fun a below => ?_⟩
    rcases Nat.lt_succ_iff_lt_or_eq.mp below with before | rfl
    · exact between.asks_before turn.unmarked turn.heap turn.others before (quiet a before)
    · exact turn.quiet

/-- First the marked builders run, and then each element has its turn, from the pages down. -/
theorem Shown.settles (shown : Shown s) (dart : Library) :
    ∃ ops, s.Driven dart ops ∧ (Run.final Store.frameOp s ops).Settled dart := by
  obtain ⟨builds, along, clean⟩ := shown.build_all dart
  have unmarked : Unmarked (Run.final Store.frameOp s builds) := ⟨shown.frame builds, clean⟩
  obtain ⟨turns, along', after, quiet⟩ := unmarked.turns dart (Run.final Store.frameOp s builds).heap.length
  refine ⟨builds ++ turns, along.append along', ?_⟩
  rw [Run.final_append]
  have heap : (Run.final Store.frameOp (Run.final Store.frameOp s builds) turns).heap =
      (Run.final Store.frameOp s builds).heap := frame_heap _ turns
  intro op asked
  cases op with
  | build e =>
    obtain ⟨b, member, _, marked⟩ := asked
    rw [after.clean b member] at marked
    cases marked
  | attach e =>
    have ⟨_, b, member, unmarked, part⟩ := asked
    obtain ⟨_, el, found, _⟩ := after.shown.shows_mountable member unmarked part
    exact (quiet e (heap ▸ (List.getElem?_eq_some_iff.mp found).1)).1 asked
  | detach e =>
    obtain ⟨b, member, rfl⟩ := List.mem_map.mp asked.1
    obtain ⟨el, found, _⟩ := after.shown.painted.builders b member
    exact (quiet b.element (heap ▸ (List.getElem?_eq_some_iff.mp found).1)).2 asked

end Passes

section Frames

variable {dart : Library} {s : Store}

theorem Store.Settled.complete (settled : s.Settled dart) : Complete dart s := by
  intro b member
  have clean : b.dirty = false := by
    by_contra marked
    exact settled (.build b.element) ⟨b, member, rfl, by simpa using marked⟩
  refine ⟨clean, fun c part => ?_⟩
  by_contra missing
  exact settled (.attach c) ⟨missing, b, member, clean, part⟩

theorem Store.Settled.accounted (settled : s.Settled dart) {a : Nat} (mounted : a ∈ s.builders.map Builder.element) :
    topmost s.heap a = true ∨ ∃ b ∈ s.builders, a ∈ b.shows dart s.heap := by
  by_contra neither
  obtain ⟨inner, unshown⟩ := not_or.mp neither
  exact settled (.detach a) ⟨mounted, by simpa using inner, fun b member part => unshown ⟨b, member, part⟩⟩

/-- A frame that is driven never drops a page. -/
theorem Store.Driven.keeps {ops : List FrameOp} (driven : s.Driven dart ops) {a : Nat} (top : topmost s.heap a = true)
    (mounted : a ∈ s.builders.map Builder.element) :
    a ∈ (ops.foldl Store.frameOp s).builders.map Builder.element := by
  refine (Run.invariant Store.frameOp (Store.Asks dart)
    (fun t => t.heap = s.heap ∧ a ∈ t.builders.map Builder.element) ?_ ops s ⟨rfl, mounted⟩ driven _
    (Run.final_mem_states s ops)).2
  rintro t op ⟨heap, mounted⟩ asked
  refine ⟨(frameOp_heap t op).trans heap, ?_⟩
  cases op with
  | attach e => exact attach_mounts t e a mounted
  | build e => exact (build_mounts t e).symm ▸ mounted
  | detach e =>
    refine detach_mounts t (fun same => ?_) mounted
    obtain ⟨_, inner, _⟩ := asked
    rw [← same, heap, top] at inner
    cases inner

end Frames

section Runs

namespace World

/-- What a widget shows is an element or a scaffold, so the marks lead a frame to its end. Then each
    mounted builder shows the document of its element. -/
theorem screen_catches_up (dart : Library) (events : List Event) (tidy : Run.Along step World.Tidy {} events) :
    ∀ w ∈ Run.states step {} events,
      (∀ (a : Nat) (el : Element), w.store.heap[a]? = some el →
        ∀ c ∈ (builder dart (el.kind = .scaffold) el.tag el.props el.children el.floatingActionButton).parts,
          ∃ cell, w.store.heap[c]? = some cell ∧ (cell.kind = .element ∨ cell.kind = .scaffold)) ∧
      (∃ ops, w.store.Driven dart ops ∧ (w.frame ops).store.Settled dart) ∧
      ∀ ops, w.store.Driven dart ops → (w.frame ops).store.Settled dart →
        Complete dart (w.frame ops).store ∧
        (∀ a ∈ w.store.builders.map Builder.element, topmost w.store.heap a = true →
          a ∈ (w.frame ops).store.builders.map Builder.element) ∧
        ∀ a ∈ (w.frame ops).store.builders.map Builder.element,
          screenAt dart (w.frame ops).store a = render dart (doc w.store.heap a) ∧
            (topmost w.store.heap a = true ∨ ∃ b ∈ (w.frame ops).store.builders, a ∈ b.shows dart w.store.heap) := by
  intro w member
  have shown := (run_shows tidy w member).shown
  refine ⟨fun a el found c part => ?_, ?_, fun ops driven settled => ?_⟩
  · obtain ⟨_, cell, there, mountable⟩ := shown.part_mountable found part
    refine ⟨cell, there, ?_⟩
    cases kind : cell.kind <;> simp [kind, Kind.mountable] at mountable ⊢
  · obtain ⟨ops, driven, settled⟩ := shown.settles dart
    exact ⟨ops, driven, by rw [frame_store]; exact settled⟩
  · rw [frame_store] at settled ⊢
    have heap := frame_heap w.store ops
    refine ⟨settled.complete, fun a mounted top => driven.keeps top mounted, fun a mounted => ⟨?_, ?_⟩⟩
    · rw [(shown.frame ops).screen_document settled.complete a mounted, heap]
    · have accounted := settled.accounted mounted
      rw [heap] at accounted
      exact accounted

def sentEvents : List Event := boardEvents.take 9

theorem screen_catches_up_sent : ∃ ops, (run sentEvents).store.Driven boardLibrary ops ∧
    screenAt boardLibrary ((run sentEvents).frame ops).store 1 =
      render boardLibrary (doc (run sentEvents).store.heap 1) := by
  obtain ⟨_, ⟨ops, driven, settled⟩, catches⟩ := screen_catches_up boardLibrary sentEvents (by decide +kernel)
    (run sentEvents) (Run.final_mem_states _ _)
  obtain ⟨_, keeps, shows⟩ := catches ops driven settled
  exact ⟨ops, driven, (shows 1 (keeps 1 (by decide +kernel) (by decide +kernel))).1⟩

example : (run sentEvents).store.Driven boardLibrary [.build 1, .attach 6, .detach 5] := by decide +kernel

end World

end Runs

end Sano.Render
