import Sano.Base.Outcome
import Sano.Render.Document

namespace Sano.Render

section Shape

structure Element.Sound (s : Store) (a : Nat) (el : Element) : Prop where
  links : ∀ b ∈ el.links, a < b ∧ b ∈ s.scheduled ∧ ∃ c, s.heap[b]? = some c ∧ c.parent = some a
  nodup : el.links.Nodup
  parent : ∀ p, el.parent = some p → p < a
  orphan : el.kind = .root ↔ el.parent = none
  holder : el.kind = .fragment → ∃ p c, el.parent = some p ∧ s.heap[p]? = some c ∧ c.kind = .scaffold

/-- Ownership: each linked element names the element that links to it as its
    parent, is linked from it once, and has been scheduled for registration. -/
structure WellFormed (s : Store) : Prop where
  sound : ∀ a (el : Element), s.heap[a]? = some el → el.Sound s a
  scheduled : ∀ b ∈ s.scheduled, b < s.heap.length

theorem WellFormed.linked {s : Store} (wf : WellFormed s) : Linked s.heap := by
  intro a el found b member
  obtain ⟨later, task, _⟩ := (wf.sound a el found).links b member
  exact ⟨later, wf.scheduled b task⟩

theorem Element.Sound.mono {s t : Store} {a : Nat} {el : Element} (sound : el.Sound s a)
    (kept : ∀ (b : Nat) (c : Element), s.heap[b]? = some c →
      ∃ c', t.heap[b]? = some c' ∧ c'.parent = c.parent ∧ c'.kind = c.kind)
    (tasks : ∀ b ∈ s.scheduled, b ∈ t.scheduled) : el.Sound t a where
  links b member := by
    obtain ⟨later, task, c, found, owner⟩ := sound.links b member
    obtain ⟨c', found', same, _⟩ := kept b c found
    exact ⟨later, tasks b task, c', found', same.trans owner⟩
  nodup := sound.nodup
  parent := sound.parent
  orphan := sound.orphan
  holder fragment := by
    obtain ⟨p, c, parent, found, kind⟩ := sound.holder fragment
    obtain ⟨c', found', _, same⟩ := kept p c found
    exact ⟨p, c', parent, found', same.trans kind⟩

theorem Element.Sound.same_shape {s : Store} {a : Nat} {el el' : Element} (sound : el.Sound s a)
    (links : el'.links = el.links) (parent : el'.parent = el.parent) (kind : el'.kind = el.kind) :
    el'.Sound s a where
  links := by rw [links]; exact sound.links
  nodup := by rw [links]; exact sound.nodup
  parent := by rw [parent]; exact sound.parent
  orphan := by rw [parent, kind]; exact sound.orphan
  holder := by rw [parent, kind]; exact sound.holder

@[simp]
theorem modify_heap_length (s : Store) (a : Nat) (change : Element → Element) :
    (s.modify a change).heap.length = s.heap.length := by
  simp [Store.modify]

@[simp]
theorem modify_scheduled (s : Store) (a : Nat) (change : Element → Element) :
    (s.modify a change).scheduled = s.scheduled := rfl

@[simp]
theorem modify_builders (s : Store) (a : Nat) (change : Element → Element) :
    (s.modify a change).builders = s.builders := rfl

theorem modify_get (s : Store) (a b : Nat) (change : Element → Element) :
    (s.modify a change).heap[b]? = if a = b then s.heap[b]?.map change else s.heap[b]? := by
  simp only [Store.modify, List.getElem?_modify]
  split <;> simp

theorem modify_get_self {s : Store} {a : Nat} {el : Element} (change : Element → Element)
    (found : s.heap[a]? = some el) : (s.modify a change).heap[a]? = some (change el) := by
  simp [modify_get, found]

theorem modify_get_other {s : Store} {a b : Nat} (change : Element → Element) (other : a ≠ b) :
    (s.modify a change).heap[b]? = s.heap[b]? := by
  simp [modify_get, other]

theorem WellFormed.modify {s : Store} {a : Nat} {change : Element → Element} (wf : WellFormed s)
    (parents : ∀ el, (change el).parent = el.parent) (kinds : ∀ el, (change el).kind = el.kind)
    (sound : ∀ el, s.heap[a]? = some el → (change el).Sound s a) : WellFormed (s.modify a change) where
  sound b el found := by
    have kept : ∀ (b : Nat) (c : Element), s.heap[b]? = some c →
        ∃ c', (s.modify a change).heap[b]? = some c' ∧ c'.parent = c.parent ∧ c'.kind = c.kind := by
      intro b c old
      rw [modify_get, old]
      split
      · exact ⟨change c, rfl, parents c, kinds c⟩
      · exact ⟨c, rfl, rfl, rfl⟩
    rw [modify_get] at found
    split at found
    · rename_i here
      subst here
      obtain ⟨old, held, rfl⟩ := Option.map_eq_some_iff.mp found
      exact (sound old held).mono kept fun _ task => task
    · exact (wf.sound b el found).mono kept fun _ task => task
  scheduled b task := by simpa using wf.scheduled b task

theorem WellFormed.modify_same_shape {s : Store} {a : Nat} {change : Element → Element}
    (wf : WellFormed s) (links : ∀ el, (change el).links = el.links)
    (parents : ∀ el, (change el).parent = el.parent) (kinds : ∀ el, (change el).kind = el.kind) :
    WellFormed (s.modify a change) :=
  wf.modify parents kinds fun el found => (wf.sound a el found).same_shape (links el) (parents el) (kinds el)

/-- What is above a changed cell does not show it. -/
theorem modify_doc {s : Store} {a k : Nat} {change : Element → Element} (wf : WellFormed s)
    (after : WellFormed (s.modify a change)) (above : a < k) (bound : k < s.heap.length) :
    doc (s.modify a change).heap k = doc s.heap k := by
  apply docWith_frame wf.linked after.linked k bound (fun _ _ _ => rfl)
  intro b el later found
  exact ⟨el, (modify_get_other _ (by omega)).trans found, .refl el⟩

theorem alloc_get {s : Store} (el : Element) (b : Nat) (bound : b < s.heap.length) :
    (s.heap ++ [el])[b]? = s.heap[b]? := List.getElem?_append_left bound

theorem WellFormed.alloc {s : Store} {el : Element} (wf : WellFormed s) (links : el.links = [])
    (parent : ∀ p, el.parent = some p → p < s.heap.length) (orphan : el.kind = .root ↔ el.parent = none)
    (holder : el.kind = .fragment → ∃ p c, el.parent = some p ∧ s.heap[p]? = some c ∧ c.kind = .scaffold) :
    WellFormed { s with heap := s.heap ++ [el] } where
  sound b found held := by
    have kept : ∀ (b : Nat) (c : Element), s.heap[b]? = some c →
        ∃ c', (s.heap ++ [el])[b]? = some c' ∧ c'.parent = c.parent ∧ c'.kind = c.kind := by
      intro b c old
      have bound := (List.getElem?_eq_some_iff.mp old).1
      exact ⟨c, (alloc_get el b bound).trans old, rfl, rfl⟩
    rcases Nat.lt_or_ge b s.heap.length with old | new
    · rw [alloc_get el b old] at held
      exact (wf.sound b found held).mono kept fun _ task => task
    · rw [List.getElem?_append_right new, List.getElem?_singleton] at held
      split at held
      · rename_i zero
        cases held
        have here : b = s.heap.length := by omega
        subst here
        refine ⟨by simp [links], by simp [links], parent, orphan, fun fragment => ?_⟩
        obtain ⟨p, c, owner, cell, scaffold⟩ := holder fragment
        obtain ⟨c', cell', _, same⟩ := kept p c cell
        exact ⟨p, c', owner, cell', same.trans scaffold⟩
      · cases held
  scheduled b task := by
    have old := wf.scheduled b task
    simp only [List.length_append, List.length_singleton]
    omega

theorem WellFormed.schedule {s : Store} {a : Nat} (wf : WellFormed s) (bound : a < s.heap.length) :
    WellFormed { s with scheduled := s.scheduled ++ [a] } where
  sound b el found :=
    (wf.sound b el found).mono (fun _ c held => ⟨c, held, rfl, rfl⟩) fun _ task => List.mem_append_left _ task
  scheduled b task := by
    rcases List.mem_append.mp task with old | new
    · exact wf.scheduled b old
    · simp only [List.mem_singleton] at new
      exact new ▸ bound

end Shape

section Growth

structure Grown (s t : Store) : Prop where
  cells : ∀ a, a < s.heap.length → t.heap[a]? = s.heap[a]?
  longer : s.heap.length ≤ t.heap.length
  tasks : s.scheduled <+: t.scheduled
  fresh : ∀ b ∈ t.scheduled, b ∈ s.scheduled ∨ s.heap.length ≤ b
  builders : t.builders = s.builders

theorem Grown.refl (s : Store) : Grown s s :=
  ⟨fun _ _ => rfl, Nat.le_refl _, List.prefix_refl _, fun _ task => .inl task, rfl⟩

theorem Grown.trans {s t u : Store} (first : Grown s t) (second : Grown t u) : Grown s u where
  cells a bound := (second.cells a (Nat.lt_of_lt_of_le bound first.longer)).trans (first.cells a bound)
  longer := Nat.le_trans first.longer second.longer
  tasks := first.tasks.trans second.tasks
  fresh b task := by
    rcases second.fresh b task with old | new
    · exact first.fresh b old
    · exact .inr (Nat.le_trans first.longer new)
  builders := second.builders.trans first.builders

theorem Grown.alloc (s : Store) (el : Element) : Grown s { s with heap := s.heap ++ [el] } :=
  ⟨fun a bound => alloc_get el a bound, by simp, List.prefix_refl _, fun _ task => .inl task, rfl⟩

theorem Grown.modify {s t : Store} {a : Nat} (grown : Grown s t) (change : Element → Element)
    (new : s.heap.length ≤ a) : Grown s (t.modify a change) where
  cells b bound := by
    have other : a ≠ b := by omega
    exact (modify_get_other change other).trans (grown.cells b bound)
  longer := by simpa using grown.longer
  tasks := grown.tasks
  fresh := grown.fresh
  builders := grown.builders

theorem Grown.schedule {s t : Store} {a : Nat} (grown : Grown s t) (new : s.heap.length ≤ a) :
    Grown s { t with scheduled := t.scheduled ++ [a] } where
  cells := grown.cells
  longer := grown.longer
  tasks := grown.tasks.trans (List.prefix_append _ _)
  fresh b task := by
    rcases List.mem_append.mp task with old | here
    · exact grown.fresh b old
    · simp only [List.mem_singleton] at here
      exact .inr (here ▸ new)
  builders := grown.builders

theorem Grown.found {s t : Store} (grown : Grown s t) {a : Nat} {el : Element}
    (found : s.heap[a]? = some el) : t.heap[a]? = some el :=
  (grown.cells a (List.getElem?_eq_some_iff.mp found).1).trans found

theorem Grown.doc {s t : Store} (grown : Grown s t) (wf : WellFormed s) (wf' : WellFormed t) {a : Nat}
    (bound : a < s.heap.length) : doc t.heap a = doc s.heap a :=
  docWith_frame wf.linked wf'.linked a bound (fun _ _ _ => rfl) fun _ el _ found =>
    ⟨el, grown.found found, .refl el⟩

end Growth

section Constructors

theorem ends_cast {α β : Type} {value : Option α} {next : α → Dart β} {s : Store}
    {normal : β → Store → Prop} {thrown : Error → Store → Prop}
    (present : ∀ v, value = some v → Ends (next v) s normal thrown)
    (absent : value = none → thrown .typeError s) : Ends (cast value >>= next) s normal thrown := by
  cases value with
  | none => exact absent rfl
  | some v => exact present v rfl

structure Built (s t : Store) (parent : Option Nat) (a : Nat) : Prop where
  grown : Grown s t
  wf : WellFormed t
  address : a = s.heap.length
  task : a ∈ t.scheduled
  cell : ∃ el, t.heap[a]? = some el ∧ el.parent = parent

structure BuiltAll (s t : Store) (parent : Nat) (kids : List Nat) : Prop where
  grown : Grown s t
  wf : WellFormed t
  nodup : kids.Nodup
  each : ∀ k ∈ kids, s.heap.length ≤ k ∧ k ∈ t.scheduled ∧ ∃ el, t.heap[k]? = some el ∧ el.parent = some parent

def Creates (create : Object → Nat → Dart Nat) (object : Object) : Prop :=
  ∀ parent s, WellFormed s → parent < s.heap.length →
    Ends (create object parent) s
      (fun a t => Built s t (some parent) a ∧ docOf object = some (doc t.heap a))
      (fun _ t => Grown s t ∧ WellFormed t ∧ docOf object = none)

theorem createItem_ends {create : Object → Nat → Dart Nat} {item : Json}
    (creates : ∀ object, item.asMap = some object → Creates create object)
    (parent : Nat) (s : Store) (wf : WellFormed s) (bound : parent < s.heap.length) :
    Ends (createItem create parent item) s
      (fun a t => Built s t (some parent) a ∧ item.asMap.bind docOf = some (doc t.heap a))
      (fun _ t => Grown s t ∧ WellFormed t ∧ item.asMap.bind docOf = none) := by
  apply ends_cast
  · intro object cast
    simpa only [cast, Option.bind_some] using creates object cast parent s wf bound
  · intro absent
    exact ⟨.refl s, wf, by simp [absent]⟩

theorem items_ends {create : Object → Nat → Dart Nat} (items : List Json)
    (creates : ∀ item ∈ items, ∀ object, item.asMap = some object → Creates create object)
    (parent : Nat) (s : Store) (wf : WellFormed s) (bound : parent < s.heap.length) :
    Ends (items.mapM (createItem create parent)) s
      (fun kids t => BuiltAll s t parent kids ∧ docsOf items = some (kids.map (doc t.heap)))
      (fun _ t => Grown s t ∧ WellFormed t ∧ docsOf items = none) := by
  induction items generalizing s with
  | nil =>
    apply Ends.pure
    exact ⟨⟨.refl s, wf, List.nodup_nil, by simp⟩, rfl⟩
  | cons item rest ih =>
    rw [List.mapM_cons]
    apply Ends.bind
    apply (createItem_ends (creates item (by simp)) parent s wf bound).mono
    · rintro k middle ⟨built, first⟩
      have inside : k < middle.heap.length := built.wf.scheduled k built.task
      apply Ends.bind
      apply (ih (fun item member => creates item (by simp [member])) middle built.wf
        (Nat.lt_of_lt_of_le bound built.grown.longer)).mono
      · rintro kids t ⟨all, docs⟩
        apply Ends.pure
        have above : ∀ k' ∈ kids, middle.heap.length ≤ k' := fun k' member => (all.each k' member).1
        refine ⟨⟨built.grown.trans all.grown, all.wf, ?_, ?_⟩, ?_⟩
        · refine List.nodup_cons.mpr ⟨fun member => ?_, all.nodup⟩
          have := above k member
          omega
        · intro k' member
          rcases List.mem_cons.mp member with rfl | later
          · obtain ⟨el, found, owner⟩ := built.cell
            exact ⟨Nat.le_of_eq built.address.symm, all.grown.tasks.subset built.task, el,
              all.grown.found found, owner⟩
          · obtain ⟨new, rest⟩ := all.each k' later
            exact ⟨Nat.le_trans built.grown.longer new, rest⟩
        · have kept := all.grown.doc built.wf all.wf inside
          unfold docsOf at docs ⊢
          simp [List.mapM_cons, first, docs, kept]
      · rintro error t ⟨grown, wf', docs⟩
        refine ⟨built.grown.trans grown, wf', ?_⟩
        unfold docsOf at docs ⊢
        simp [List.mapM_cons, first, docs]
    · rintro error t ⟨grown, wf', first⟩
      refine ⟨grown, wf', ?_⟩
      unfold docsOf
      simp [List.mapM_cons, first]

theorem finish_element {s t : Store} {el : Element} (kids : Option (List Nat))
    (grown : Grown { s with heap := s.heap ++ [el] } t) (wf : WellFormed t) (bare : el.fragment = none)
    (nodup : (kids.getD []).Nodup)
    (each : ∀ k ∈ kids.getD [], s.heap.length < k ∧ k ∈ t.scheduled ∧
      ∃ c, t.heap[k]? = some c ∧ c.parent = some s.heap.length) :
    let u := { t.modify s.heap.length (.withChildren kids) with scheduled := t.scheduled ++ [s.heap.length] }
    Built s u el.parent s.heap.length ∧ u.heap[s.heap.length]? = some (el.withChildren kids) ∧
      doc u.heap s.heap.length =
        .node el.id el.tag el.props el.events (kids.map (List.map (doc t.heap))) none := by
  intro u
  have found : t.heap[s.heap.length]? = some el := by
    rw [grown.cells s.heap.length (by simp)]
    simp
  have bound : s.heap.length < t.heap.length := (List.getElem?_eq_some_iff.mp found).1
  have links : (el.withChildren kids).links = kids.getD [] := by
    simp [Element.links, Element.withChildren, bare]
  have stored : WellFormed (t.modify s.heap.length (.withChildren kids)) := by
    refine wf.modify (fun _ => rfl) (fun _ => rfl) fun old held => ?_
    cases Option.some.inj (found.symm.trans held)
    have sound := wf.sound _ el found
    exact ⟨by rw [links]; exact each, by rw [links]; exact nodup, sound.parent, sound.orphan, sound.holder⟩
  have wf' : WellFormed u := stored.schedule (by simpa using bound)
  have cell : u.heap[s.heap.length]? = some (el.withChildren kids) := modify_get_self _ found
  refine ⟨⟨?_, wf', rfl, by simp [u], _, cell, rfl⟩, cell, ?_⟩
  · exact (((Grown.alloc s el).trans grown).modify _ (Nat.le_refl _)).schedule (Nat.le_refl _)
  · have below (k : Nat) (member : k ∈ kids.getD []) : doc u.heap k = doc t.heap k := by
      obtain ⟨later, task, _⟩ := each k member
      exact modify_doc wf stored later (wf.scheduled k task)
    have kidDocs : kids.map (List.map (doc u.heap)) = kids.map (List.map (doc t.heap)) := by
      cases kids with
      | none => rfl
      | some kids => exact congrArg some (List.map_congr_left below)
    rw [doc_node wf'.linked cell]
    simp only [Element.withChildren, kidDocs, bare, Option.map_none]

theorem sanoElement_ends {create : Object → Nat → Dart Nat} {renderObject : Object}
    (creates : ∀ below : Object, below.depth < renderObject.depth → Creates create below)
    (kind : Kind) (parent : Option Nat) (s : Store) (wf : WellFormed s)
    (bound : ∀ p, parent = some p → p < s.heap.length) (orphan : kind = .root ↔ parent = none)
    (holder : kind = .fragment → ∃ p c, parent = some p ∧ s.heap[p]? = some c ∧ c.kind = .scaffold) :
    Ends (sanoElement create kind renderObject parent) s
      (fun a t => Built s t parent a ∧ (∃ el, t.heap[a]? = some el ∧ el.kind = kind ∧ el.fragment = none) ∧
        readNode docOf renderObject none = some (doc t.heap a))
      (fun _ t => Grown s t ∧ WellFormed t ∧ ∀ slot, readNode docOf renderObject slot = none) := by
  unfold sanoElement
  apply ends_cast
  case absent =>
    intro absent
    exact ⟨.refl s, wf, fun slot => by simp [readNode, absent]⟩
  intro id hasId
  apply ends_cast
  case absent =>
    intro absent
    exact ⟨.refl s, wf, fun slot => by simp [readNode, absent]⟩
  intro tag hasTag
  apply ends_cast
  case absent =>
    intro absent
    exact ⟨.refl s, wf, fun slot => by simp [readNode, absent]⟩
  intro props hasProps
  apply ends_cast
  case absent =>
    intro absent
    exact ⟨.refl s, wf, fun slot => by simp [readNode, absent]⟩
  intro events hasEvents
  let el : Element := { kind, id, tag, props := props.getD ∅, events, parent }
  have wf₁ : WellFormed { s with heap := s.heap ++ [el] } := wf.alloc rfl bound orphan holder
  have grown₁ := Grown.alloc s el
  apply Ends.bind
  show Ends _ { s with heap := s.heap ++ [el] } _ _
  apply ends_cast
  case absent =>
    intro absent
    exact ⟨grown₁, wf₁, fun slot => by simp [readNode, absent]⟩
  intro items hasItems
  cases items with
  | none =>
    obtain ⟨built, cell, docs⟩ := finish_element none (.refl _) wf₁ rfl (by simp) (by simp)
    refine ⟨built, ⟨_, cell, rfl, rfl⟩, ?_⟩
    simp [readNode, hasId, hasTag, hasProps, hasEvents, hasItems, docs, el]
  | some items =>
    apply Ends.bind
    have lower : ∀ item ∈ items, ∀ object, item.asMap = some object → Creates create object :=
      fun item member object cast => creates object (item_depth (asList_of_asListOrNull hasItems) member cast)
    apply (items_ends items lower s.heap.length _ wf₁ (by simp)).mono
    · rintro kids t ⟨all, docs⟩
      have each (k : Nat) (member : k ∈ kids) : s.heap.length < k ∧ k ∈ t.scheduled ∧
          ∃ c, t.heap[k]? = some c ∧ c.parent = some s.heap.length := by
        obtain ⟨new, rest⟩ := all.each k member
        simp only [List.length_append, List.length_singleton] at new
        exact ⟨new, rest⟩
      obtain ⟨built, cell, node⟩ := finish_element (some kids) all.grown all.wf rfl all.nodup each
      refine ⟨built, ⟨_, cell, rfl, rfl⟩, ?_⟩
      simp only [docsOf] at docs
      simp [readNode, hasId, hasTag, hasProps, hasEvents, hasItems, docs, node, el]
    · rintro error t ⟨grown, wf₂, docs⟩
      refine ⟨grown₁.trans grown, wf₂, fun slot => ?_⟩
      simp only [docsOf] at docs
      simp [readNode, hasItems, docs]

theorem attach_fragment {t u : Store} {a f : Nat} {el : Element} (wf : WellFormed t)
    (found : t.heap[a]? = some el) (bare : el.fragment = none) (built : Built t u (some a) f) :
    WellFormed (u.modify a (.withFragment f)) := by
  have bound : a < t.heap.length := (List.getElem?_eq_some_iff.mp found).1
  have here : u.heap[a]? = some el := built.grown.found found
  refine built.wf.modify (fun _ => rfl) (fun _ => rfl) fun old held => ?_
  cases Option.some.inj (here.symm.trans held)
  have sound := built.wf.sound a el here
  have links : (el.withFragment f).links = el.links ++ [f] := by
    simp [Element.links, Element.withFragment, bare]
  refine ⟨?_, ?_, sound.parent, sound.orphan, sound.holder⟩
  · rw [links]
    intro b member
    rcases List.mem_append.mp member with old | new
    · exact sound.links b old
    · simp only [List.mem_singleton] at new
      subst new
      obtain ⟨c, cell, owner⟩ := built.cell
      exact ⟨by rw [built.address]; exact bound, built.task, c, cell, owner⟩
  · rw [links]
    refine sound.nodup.append (by simp) ?_
    intro b old new
    simp only [List.mem_singleton] at new
    have inside := (wf.linked a el found b old).2
    rw [new, built.address] at inside
    exact Nat.lt_irrefl _ inside

theorem slot_doc {t u : Store} {a f : Nat} {el : Element} (widget : Option Nat) (wf : WellFormed t)
    (found : t.heap[a]? = some el) (bare : el.fragment = none) (built : Built t u (some a) f) :
    let v := (u.modify a (.withFragment f)).modify a (.withFloatingActionButton widget)
    WellFormed v ∧ doc v.heap a = (doc t.heap a).withSlot (some (doc u.heap f)) := by
  intro v
  have bound : a < t.heap.length := (List.getElem?_eq_some_iff.mp found).1
  have attached := attach_fragment wf found bare built
  have wf' : WellFormed v := attached.modify_same_shape (fun _ => rfl) (fun _ => rfl) fun _ => rfl
  have cell : v.heap[a]? = some ((el.withFragment f).withFloatingActionButton widget) :=
    modify_get_self _ (modify_get_self _ (built.grown.found found))
  have elsewhere (b : Nat) (other : a ≠ b) : v.heap[b]? = u.heap[b]? :=
    (modify_get_other _ other).trans (modify_get_other _ other)
  refine ⟨wf', ?_⟩
  have kids (k : Nat) (member : k ∈ el.links) : doc v.heap k = doc t.heap k := by
    obtain ⟨later, inside⟩ := wf.linked a el found k member
    apply docWith_frame wf.linked wf'.linked k inside (fun _ _ _ => rfl)
    intro b old above held
    exact ⟨old, (elsewhere b (by omega)).trans (built.grown.found held), .refl old⟩
  have fragment : doc v.heap f = doc u.heap f := by
    apply docWith_frame built.wf.linked wf'.linked f (built.wf.scheduled f built.task) (fun _ _ _ => rfl)
    intro b old above held
    have address := built.address
    exact ⟨old, (elsewhere b (by omega)).trans held, .refl old⟩
  have kidDocs : el.children.map (List.map (doc v.heap)) = el.children.map (List.map (doc t.heap)) :=
    children_congr fun _ k next => kids k (next_mem next)
  rw [doc_node wf'.linked cell, doc_node wf.linked found]
  simp only [Element.withFloatingActionButton, Element.withFragment, Option.map_some, fragment, kidDocs,
    Doc.withSlot]

theorem floatingActionButtonBuilder_eq {s : Store} {self element : Nat} {el : Element}
    (found : s.heap[element]? = some el) :
    floatingActionButtonBuilder self element s =
      if el.children = some [] then .error .rangeError s
      else .ok () (s.modify self (.withFloatingActionButton ((el.children.getD []).head?))) := by
  have loaded : read element s = .ok el s := by simp [read, found]
  simp only [floatingActionButtonBuilder, Bind.bind, EStateM.bind, loaded]
  cases el.children with
  | none => rfl
  | some kids => cases kids <;> rfl

theorem initSlots_eq (create : Object → Nat → Dart Nat) (renderObject : Object) (self : Nat) :
    initSlots create renderObject self =
      initSlot create renderObject self "floating-action-button-fragment" floatingActionButtonBuilder := by
  simp [initSlots, slots]

theorem doc_children {s : Store} {a : Nat} {el : Element} (wf : WellFormed s) (found : s.heap[a]? = some el) :
    (doc s.heap a).children = el.children.map (List.map (doc s.heap)) := by
  rw [doc_node wf.linked found]
  rfl

theorem initSlot_ends {create : Object → Nat → Dart Nat} {renderObject : Object}
    (creates : ∀ below : Object, below.depth < renderObject.depth → Creates create below)
    {s t : Store} {a : Nat} {el : Element} (grown : Grown s t) (new : s.heap.length ≤ a) (wf : WellFormed t)
    (found : t.heap[a]? = some el) (scaffold : el.kind = .scaffold) (bare : el.fragment = none) :
    Ends (initSlots create renderObject a) t
      (fun _ v => Grown s v ∧ WellFormed v ∧
        (∃ el', v.heap[a]? = some el' ∧ el'.parent = el.parent) ∧ t.scheduled <+: v.scheduled ∧
        ∃ slot, readSlot docOf renderObject = some slot ∧ doc v.heap a = (doc t.heap a).withSlot slot)
      (fun _ v => Grown s v ∧ WellFormed v ∧ readSlot docOf renderObject = none) := by
  rw [initSlots_eq]
  unfold initSlot readSlot
  by_cases present : renderObject.containsKey "floating-action-button-fragment" = true
  · simp only [present, if_true]
    apply ends_cast
    case absent =>
      intro absent
      exact ⟨grown, wf, by simp [absent]⟩
    intro object cast
    have lower : object.depth < renderObject.depth :=
      Nat.lt_of_lt_of_le (asMap_depth cast) (field_depth renderObject _)
    have bound : a < t.heap.length := (List.getElem?_eq_some_iff.mp found).1
    apply Ends.bind
    apply (sanoElement_ends (fun below small => creates below (Nat.lt_trans small lower)) .fragment
      (some a) t wf (by simpa using bound) (by simp) (fun _ => ⟨a, el, rfl, found, scaffold⟩)).mono
    · rintro f u ⟨built, ⟨fragment, cell, _, _⟩, node⟩
      apply Ends.bind
      show Ends (floatingActionButtonBuilder a f) (u.modify a (.withFragment f)) _ _
      have other : a ≠ f := by
        rw [built.address]
        omega
      have held := (modify_get_other (.withFragment f) other).trans cell
      have attached := attach_fragment wf found bare built
      have grown' : Grown s (u.modify a (.withFragment f)) := (grown.trans built.grown).modify _ new
      have children : (doc u.heap f).children = fragment.children.map (List.map (doc u.heap)) :=
        doc_children built.wf cell
      unfold Ends
      rw [floatingActionButtonBuilder_eq held]
      by_cases empty : fragment.children = some []
      · simp only [empty, if_true]
        refine ⟨grown', attached, ?_⟩
        simp [cast, node, children, empty]
      · simp only [empty, if_false]
        obtain ⟨wf', slot⟩ := slot_doc (fragment.children.getD []).head? wf found bare built
        refine ⟨grown'.modify _ new, wf', ⟨_, modify_get_self _ (modify_get_self _ (built.grown.found found)), rfl⟩,
          built.grown.tasks, some (doc u.heap f), ?_, slot⟩
        have filled : (doc u.heap f).children ≠ some [] := by
          rw [children]
          cases kids : fragment.children with
          | none => simp
          | some kids => simpa [kids] using empty
        simp only [cast, node, Option.bind_eq_bind, Option.bind_some]
    · rintro error u ⟨grown', wf', node⟩
      refine ⟨grown.trans grown', wf', ?_⟩
      simp [cast, node]
  · simp only [present]
    refine ⟨grown, wf, ⟨el, found, rfl⟩, List.prefix_refl _, none, rfl, ?_⟩
    rw [doc_node wf.linked found]
    simp [Doc.withSlot, bare]

/-- Every constructor ends in a well-formed store that keeps all old objects. It
    ends normally exactly when the payload describes a document, and then the
    new element shows that document. -/
theorem createNodeElement_creates (object : Object) : Creates createNodeElement object := by
  generalize bound : object.depth = n
  induction n using Nat.strongRecOn generalizing object with
  | ind n ih =>
    have creates : ∀ below : Object, below.depth < object.depth → Creates createNodeElement below :=
      fun below small => ih below.depth (by omega) below rfl
    intro parent s wf inside
    rw [createNodeElement_eq, docOf_eq]
    unfold createStep readStep
    apply ends_cast
    case absent =>
      intro absent
      exact ⟨.refl s, wf, by simp [absent]⟩
    intro tag hasTag
    have base (kind : Kind) (plain : kind ≠ .root) (solid : kind ≠ .fragment) :=
      sanoElement_ends creates kind (some parent) s wf (by simpa using inside) (by simp [plain])
        (fun fragment => absurd fragment solid)
    by_cases scaffold : tag = "scaffold"
    · simp only [scaffold, if_true, hasTag, Option.bind_eq_bind, Option.bind_some]
      apply Ends.bind
      apply (base .scaffold (by decide) (by decide)).mono
      · rintro a t ⟨built, ⟨el, cell, kind, bare⟩, node⟩
        apply Ends.bind
        apply (initSlot_ends creates built.grown (Nat.le_of_eq built.address.symm) built.wf cell kind bare).mono
        · rintro _ v ⟨grown, wf', ⟨el', cell', same⟩, tasks, slot, read, shown⟩
          apply Ends.pure
          obtain ⟨old, held, owner⟩ := built.cell
          have parents : el'.parent = some parent := by
            rw [same, Option.some.inj (cell.symm.trans held), owner]
          refine ⟨⟨grown, wf', built.address, tasks.subset built.task, el', cell', parents⟩, ?_⟩
          rw [read, Option.bind_some, readNode_slot, node, shown]
          rfl
        · rintro error v ⟨grown, wf', read⟩
          exact ⟨grown, wf', by simp [read]⟩
      · rintro error t ⟨grown, wf', node⟩
        refine ⟨grown, wf', ?_⟩
        cases readSlot docOf object <;> simp [node]
    · simp only [scaffold, if_false, hasTag, Option.bind_eq_bind, Option.bind_some]
      apply (base .element (by decide) (by decide)).mono
      · rintro a t ⟨built, _, node⟩
        exact ⟨built, node⟩
      · rintro error t ⟨grown, wf', node⟩
        exact ⟨grown, wf', node none⟩

theorem rootElement_ends (payload : Json) (channel : String) (s : Store) (wf : WellFormed s) :
    Ends (rootElement payload channel) s
      (fun a t => Built s t none a ∧ (∃ el, t.heap[a]? = some el ∧ el.kind = .root ∧ el.id = channel) ∧
        ∃ d, payload.asMap.bind docOf = some d ∧ doc t.heap a = .node channel "root" ∅ none (some [d]) none)
      (fun _ t => Grown s t ∧ WellFormed t ∧ payload.asMap.bind docOf = none) := by
  apply ends_cast
  case absent =>
    intro absent
    exact ⟨.refl s, wf, by simp [absent]⟩
  intro object cast
  have node : readNode docOf (LinkedMap.ofList [("id", .string channel), ("tag", .string "root"),
      ("children", .list [payload])]) none =
      (docOf object).map fun d => .node channel "root" ∅ none (some [d]) none := by
    cases made : docOf object <;>
      simp [readNode, Object.field, LinkedMap.ofList, Json.asString, Json.asMapOrNull,
        Json.asStringsOrNull, Json.asListOrNull, Json.asList, cast, made]
  apply (sanoElement_ends (fun below _ => createNodeElement_creates below) .root none s wf (by simp) (by simp)
    (by simp)).mono
  · rintro a t ⟨built, ⟨el, cell, kind, _⟩, shown⟩
    rw [node] at shown
    obtain ⟨d, made, same⟩ := Option.map_eq_some_iff.mp shown
    have face := doc_node built.wf.linked cell
    rw [← same] at face
    refine ⟨built, ⟨el, cell, kind, ?_⟩, d, by simp [cast, made], same.symm⟩
    injection face with id
    exact id.symm
  · rintro error t ⟨grown, wf', rejected⟩
    have none := node.symm.trans (rejected none)
    exact ⟨grown, wf', by simpa [cast] using none⟩

end Constructors

end Sano.Render
