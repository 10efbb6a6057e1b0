import Sano.Render.Update

namespace Sano.Render

section Slots

structure Element.Filled (heap : List Element) (el : Element) : Prop where
  button : el.floatingActionButton = (el.fragment.bind fun f => heap[f]?.bind Element.children).bind List.head?
  fragment : ∀ f, el.fragment = some f → ∃ cell, heap[f]? = some cell ∧ cell.kind = .fragment

def Held (heap : List Element) (f : Nat) : Prop :=
  ∀ cell, heap[f]? = some cell → cell.kind = .fragment →
    ∃ p owner, cell.parent = some p ∧ heap[p]? = some owner ∧ owner.fragment = some f

structure Reflected (heap : List Element) (tasks : List Nat) : Prop where
  filled : ∀ (a : Nat) (el : Element), heap[a]? = some el → el.Filled heap
  held : ∀ f ∈ tasks, Held heap f

variable {heap heap' : List Element} {tasks : List Nat} {s t u : Store}

theorem Element.Filled.mono {el el' : Element} (filled : el.Filled heap) (fragment : el'.fragment = el.fragment)
    (button : el'.floatingActionButton = el.floatingActionButton)
    (kept : ∀ f cell, el.fragment = some f → heap[f]? = some cell →
      ∃ cell', heap'[f]? = some cell' ∧ cell'.children = cell.children ∧ cell'.kind = cell.kind) :
    el'.Filled heap' := by
  cases holds : el.fragment with
  | none =>
    refine ⟨?_, by simp [fragment, holds]⟩
    rw [button, filled.button, fragment, holds]
    rfl
  | some f =>
    obtain ⟨cell, found, kind⟩ := filled.fragment f holds
    obtain ⟨cell', found', children, same⟩ := kept f cell holds found
    refine ⟨?_, fun g link => ?_⟩
    · rw [button, filled.button, fragment, holds]
      simp only [Option.bind_some, found, found', children]
    · cases Option.some.inj ((fragment.trans holds).symm.trans link)
      exact ⟨cell', found', same.trans kind⟩

theorem Element.Filled.bare {el : Element} (filled : el.Filled heap) (bare : el.fragment = none) :
    el.floatingActionButton = none := by
  rw [filled.button, bare]
  rfl

theorem Held.mono {f : Nat} (held : Held heap f)
    (back : ∀ cell', heap'[f]? = some cell' →
      ∃ cell, heap[f]? = some cell ∧ cell.kind = cell'.kind ∧ cell.parent = cell'.parent)
    (kept : ∀ (p : Nat) (owner : Element), heap[p]? = some owner → owner.fragment = some f →
      ∃ owner', heap'[p]? = some owner' ∧ owner'.fragment = some f) : Held heap' f := by
  intro cell' found' kind
  obtain ⟨cell, found, same, parent⟩ := back cell' found'
  obtain ⟨p, owner, above, there, link⟩ := held cell found (same.trans kind)
  obtain ⟨owner', there', link'⟩ := kept p owner there link
  exact ⟨p, owner', parent.symm.trans above, there', link'⟩

theorem Reflected.alloc (reflected : Reflected s.heap tasks) (wf : WellFormed s) (listed : ∀ b ∈ tasks, b ∈ s.scheduled)
    {el : Element} (bare : el.fragment = none) (empty : el.floatingActionButton = none) :
    Reflected (s.heap ++ [el]) tasks where
  filled a cell found := by
    rcases Nat.lt_or_ge a s.heap.length with old | new
    · rw [alloc_get el a old] at found
      refine (reflected.filled a cell found).mono rfl rfl fun f inner link there => ?_
      exact ⟨inner, (alloc_get el f (List.getElem?_eq_some_iff.mp there).1).trans there, rfl, rfl⟩
    · rw [List.getElem?_append_right new, List.getElem?_singleton] at found
      split at found
      · cases found
        exact ⟨by rw [empty, bare]; rfl, by simp [bare]⟩
      · cases found
  held f task := by
    have bound := wf.scheduled f (listed f task)
    refine (reflected.held f task).mono (fun cell found => ?_) fun p owner there link => ?_
    · rw [alloc_get el f bound] at found
      exact ⟨cell, found, rfl, rfl⟩
    · exact ⟨owner, (alloc_get el p (List.getElem?_eq_some_iff.mp there).1).trans there, link⟩

theorem held_modify {f a : Nat} {change : Element → Element} (held : Held s.heap f)
    (kinds : ∀ el, (change el).kind = el.kind) (parents : ∀ el, (change el).parent = el.parent)
    (keeps : ∀ el, s.heap[a]? = some el → el.fragment = some f → (change el).fragment = some f) :
    Held (s.modify a change).heap f := by
  refine held.mono (fun cell found => ?_) fun p owner there link => ?_
  · rw [modify_get] at found
    split at found
    · obtain ⟨old, before, rfl⟩ := Option.map_eq_some_iff.mp found
      exact ⟨old, before, (kinds old).symm, (parents old).symm⟩
    · exact ⟨cell, found, rfl, rfl⟩
  · by_cases same : a = p
    · subst same
      exact ⟨_, modify_get_self change there, keeps owner there link⟩
    · exact ⟨owner, (modify_get_other change same).trans there, link⟩

/-- A change of what no slot reads. -/
theorem Reflected.modify {a : Nat} {change : Element → Element} (reflected : Reflected s.heap tasks)
    (kinds : ∀ el, (change el).kind = el.kind) (parents : ∀ el, (change el).parent = el.parent)
    (fragments : ∀ el, (change el).fragment = el.fragment)
    (buttons : ∀ el, (change el).floatingActionButton = el.floatingActionButton)
    (unseen : (∀ el, (change el).children = el.children) ∨
      ∀ (b : Nat) (el : Element), s.heap[b]? = some el → el.fragment ≠ some a) :
    Reflected (s.modify a change).heap tasks where
  filled b el found := by
    have kept (c : Nat) (owner : Element) (there : s.heap[c]? = some owner) (f : Nat) (cell : Element)
        (link : owner.fragment = some f) (inner : s.heap[f]? = some cell) : ∃ cell',
        (s.modify a change).heap[f]? = some cell' ∧ cell'.children = cell.children ∧ cell'.kind = cell.kind := by
      by_cases same : a = f
      · subst same
        refine ⟨_, modify_get_self change inner, ?_, kinds cell⟩
        rcases unseen with still | unlinked
        · exact still cell
        · exact absurd link (unlinked c owner there)
      · exact ⟨cell, (modify_get_other change same).trans inner, rfl, rfl⟩
    rw [modify_get] at found
    split at found
    · obtain ⟨old, before, rfl⟩ := Option.map_eq_some_iff.mp found
      exact (reflected.filled b old before).mono (fragments old) (buttons old) (kept b old before)
    · exact (reflected.filled b el found).mono rfl rfl (kept b el found)
  held f task := held_modify (reflected.held f task) kinds parents fun el _ link => (fragments el).trans link

theorem Reflected.schedule {a : Nat} (reflected : Reflected heap tasks) (held : Held heap a) :
    Reflected heap (tasks ++ [a]) where
  filled := reflected.filled
  held f task := by
    rcases List.mem_append.mp task with old | new
    · exact reflected.held f old
    · rw [List.mem_singleton.mp new]
      exact held

theorem held_plain {a : Nat} {el : Element} (found : heap[a]? = some el) (plain : el.kind ≠ .fragment) : Held heap a := by
  intro cell there kind
  cases Option.some.inj (found.symm.trans there)
  exact absurd kind plain

/-- The slot is filled anew, from the children that its fragment has now. -/
theorem Reflected.fill {a f : Nat} {el cell : Element} {change : Element → Element}
    (others : ∀ (b : Nat) (owner : Element), s.heap[b]? = some owner → b ≠ a → owner.Filled s.heap)
    (held : ∀ g ∈ tasks, Held s.heap g) (found : s.heap[a]? = some el) (fragment : s.heap[f]? = some cell)
    (kind : cell.kind = .fragment) (other : a ≠ f) (keeps : ∀ g, el.fragment = some g → g = f)
    (kinds : ∀ el, (change el).kind = el.kind) (parents : ∀ el, (change el).parent = el.parent)
    (children : ∀ el, (change el).children = el.children) (attached : (change el).fragment = some f)
    (shown : (change el).floatingActionButton = cell.children.bind List.head?) :
    Reflected (s.modify a change).heap tasks where
  filled b owner there := by
    by_cases same : a = b
    · subst same
      cases Option.some.inj ((modify_get_self change found).symm.trans there)
      have inner := (modify_get_other change other).trans fragment
      refine ⟨?_, fun g link => ?_⟩
      · rw [shown, attached]
        simp only [Option.bind_some, inner]
      · cases Option.some.inj (attached.symm.trans link)
        exact ⟨cell, inner, kind⟩
    · rw [modify_get_other change same] at there
      refine (others b owner there (Ne.symm same)).mono rfl rfl fun g inside _ here => ?_
      by_cases again : a = g
      · subst again
        exact ⟨_, modify_get_self change here, children inside, kinds inside⟩
      · exact ⟨inside, (modify_get_other change again).trans here, rfl, rfl⟩
  held g task := by
    refine held_modify (held g task) kinds parents fun old there link => ?_
    cases Option.some.inj (found.symm.trans there)
    rw [keeps g link, attached]

end Slots

section Construction

def Mirrored (s : Store) : Prop := Reflected s.heap s.scheduled

def Mirrors (create : Object → Nat → Dart Nat) (object : Object) : Prop :=
  ∀ parent s, WellFormed s → parent < s.heap.length → Mirrored s →
    Ends (create object parent) s (fun _ t => Mirrored t) fun _ t => Mirrored t

theorem createItem_mirrors {create : Object → Nat → Dart Nat} {item : Json}
    (mirrors : ∀ object, item.asMap = some object → Mirrors create object) (parent : Nat) (s : Store)
    (wf : WellFormed s) (bound : parent < s.heap.length) (mirrored : Mirrored s) :
    Ends (createItem create parent item) s (fun _ t => Mirrored t) fun _ t => Mirrored t := by
  apply ends_cast
  · intro object cast
    exact mirrors object cast parent s wf bound mirrored
  · exact fun _ => mirrored

theorem items_mirror {create : Object → Nat → Dart Nat} (items : List Json)
    (creates : ∀ item ∈ items, ∀ object, item.asMap = some object → Creates create object)
    (mirrors : ∀ item ∈ items, ∀ object, item.asMap = some object → Mirrors create object)
    (parent : Nat) (s : Store) (wf : WellFormed s) (bound : parent < s.heap.length) (mirrored : Mirrored s) :
    Ends (items.mapM (createItem create parent)) s (fun _ t => Mirrored t) fun _ t => Mirrored t := by
  induction items generalizing s with
  | nil => exact Ends.pure mirrored
  | cons item rest ih =>
    rw [List.mapM_cons]
    apply Ends.bind
    apply ((createItem_ends (creates item (by simp)) parent s wf bound).both
      (createItem_mirrors (mirrors item (by simp)) parent s wf bound mirrored)).mono
    · rintro k middle ⟨⟨built, _⟩, between⟩
      apply Ends.bind
      apply (ih (fun item member => creates item (by simp [member])) (fun item member => mirrors item (by simp [member]))
        middle built.wf (Nat.lt_of_lt_of_le bound built.grown.longer) between).mono
      · exact fun _ _ after => Ends.pure after
      · exact fun _ _ after => after
    · exact fun _ _ thrown => thrown.2

/-- Nothing has a link to an object that is being made. -/
theorem unlinked_self {s t : Store} {el : Element} (wf : WellFormed s) (wf' : WellFormed t)
    (grown : Grown { s with heap := s.heap ++ [el] } t) (b : Nat) (owner : Element) (found : t.heap[b]? = some owner) :
    owner.fragment ≠ some s.heap.length := by
  intro link
  have below := (wf'.linked b owner found s.heap.length (by simp [Element.links, link])).1
  rw [grown.cells b (by simp; omega), alloc_get el b below] at found
  have inside := (wf.linked b owner found s.heap.length (by simp [Element.links, link])).2
  exact Nat.lt_irrefl _ inside

theorem sanoElement_mirrors {create : Object → Nat → Dart Nat} {renderObject : Object}
    (creates : ∀ below : Object, below.depth < renderObject.depth → Creates create below)
    (mirrors : ∀ below : Object, below.depth < renderObject.depth → Mirrors create below)
    (kind : Kind) (parent : Option Nat) (s : Store) (wf : WellFormed s)
    (bound : ∀ p, parent = some p → p < s.heap.length) (orphan : kind = .root ↔ parent = none)
    (holder : kind = .fragment → ∃ p c, parent = some p ∧ s.heap[p]? = some c ∧ c.kind = .scaffold)
    (mirrored : Mirrored s) :
    Ends (sanoElement create kind renderObject parent) s
      (fun a t => ∃ earlier, t.scheduled = earlier ++ [a] ∧ Reflected t.heap earlier) fun _ t => Mirrored t := by
  unfold sanoElement
  apply ends_cast
  case absent => exact fun _ => mirrored
  intro id _
  apply ends_cast
  case absent => exact fun _ => mirrored
  intro tag _
  apply ends_cast
  case absent => exact fun _ => mirrored
  intro props _
  apply ends_cast
  case absent => exact fun _ => mirrored
  intro events _
  let el : Element := { kind, id, tag, props := props.getD ∅, events, parent }
  have wf₁ : WellFormed { s with heap := s.heap ++ [el] } := wf.alloc rfl bound orphan holder
  have allocated : Mirrored { s with heap := s.heap ++ [el] } := mirrored.alloc wf (fun _ task => task) rfl rfl
  have finish (t : Store) (kids : Option (List Nat)) (grown : Grown { s with heap := s.heap ++ [el] } t)
      (wf' : WellFormed t) (before : Mirrored t) : Reflected (t.modify s.heap.length (.withChildren kids)).heap t.scheduled :=
    before.modify (fun _ => rfl) (fun _ => rfl) (fun _ => rfl) (fun _ => rfl) (.inr (unlinked_self wf wf' grown))
  apply Ends.bind
  show Ends _ { s with heap := s.heap ++ [el] } _ _
  apply ends_cast
  case absent => exact fun _ => allocated
  intro items hasItems
  cases items with
  | none => exact ⟨_, rfl, finish _ none (.refl _) wf₁ allocated⟩
  | some items =>
    have lower (item : Json) (member : item ∈ items) (object : Object) (cast : item.asMap = some object) :
        object.depth < renderObject.depth := item_depth (asList_of_asListOrNull hasItems) member cast
    apply Ends.bind
    apply ((items_ends items (fun item member object cast => creates object (lower item member object cast))
      s.heap.length _ wf₁ (by simp)).both
      (items_mirror items (fun item member object cast => creates object (lower item member object cast))
        (fun item member object cast => mirrors object (lower item member object cast)) s.heap.length _ wf₁ (by simp)
        allocated)).mono
    · rintro kids t ⟨⟨all, _⟩, before⟩
      exact ⟨_, rfl, finish t (some kids) all.grown all.wf before⟩
    · exact fun _ _ thrown => thrown.2

theorem Reflected.attach {tasks : List Nat} {u : Store} {a f : Nat} {el cell : Element} {change : Element → Element}
    (reflected : Reflected u.heap tasks) (found : u.heap[a]? = some el) (bare : el.fragment = none)
    (fragment : u.heap[f]? = some cell) (kind : cell.kind = .fragment) (parent : cell.parent = some a) (other : a ≠ f)
    (kinds : ∀ el, (change el).kind = el.kind) (parents : ∀ el, (change el).parent = el.parent)
    (children : ∀ el, (change el).children = el.children) (attached : (change el).fragment = some f)
    (shown : (change el).floatingActionButton = cell.children.bind List.head?) :
    Reflected (u.modify a change).heap (tasks ++ [f]) := by
  have filled : Reflected (u.modify a change).heap tasks :=
    .fill (fun b owner there _ => reflected.filled b owner there) reflected.held found fragment kind other
      (by simp [bare]) kinds parents children attached shown
  refine filled.schedule fun again there _ => ?_
  cases Option.some.inj (((modify_get_other change other).trans fragment).symm.trans there)
  exact ⟨a, change el, parent, modify_get_self change found, attached⟩

theorem initSlots_mirror {create : Object → Nat → Dart Nat} {renderObject : Object}
    (creates : ∀ below : Object, below.depth < renderObject.depth → Creates create below)
    (mirrors : ∀ below : Object, below.depth < renderObject.depth → Mirrors create below)
    {t : Store} {a : Nat} {el : Element} (wf : WellFormed t) (found : t.heap[a]? = some el)
    (scaffold : el.kind = .scaffold) (bare : el.fragment = none) (mirrored : Mirrored t) :
    Ends (initSlots create renderObject a) t (fun _ v => Mirrored v) fun _ v => Mirrored v := by
  rw [initSlots_eq]
  unfold initSlot
  by_cases present : renderObject.containsKey "floating-action-button-fragment" = true
  · simp only [present, if_true]
    apply ends_cast
    case absent => exact fun _ => mirrored
    intro object cast
    have lower : object.depth < renderObject.depth :=
      Nat.lt_of_lt_of_le (asMap_depth cast) (field_depth renderObject _)
    have bound : a < t.heap.length := (List.getElem?_eq_some_iff.mp found).1
    have deeper (below : Object) (small : below.depth < object.depth) : below.depth < renderObject.depth :=
      Nat.lt_trans small lower
    apply Ends.bind
    apply ((sanoElement_ends (fun below small => creates below (deeper below small)) .fragment (some a) t wf
      (by simpa using bound) (by simp) (fun _ => ⟨a, el, rfl, found, scaffold⟩)).both
      (sanoElement_mirrors (fun below small => creates below (deeper below small))
        (fun below small => mirrors below (deeper below small)) .fragment (some a) t wf (by simpa using bound) (by simp)
        (fun _ => ⟨a, el, rfl, found, scaffold⟩) mirrored)).mono
    case onThrown => exact fun _ _ thrown => thrown.2
    rintro f u ⟨⟨built, ⟨fragment, cell, kind, _⟩, _⟩, earlier, tasks, reflected⟩
    obtain ⟨same, again, parent⟩ := built.cell
    cases Option.some.inj (cell.symm.trans again)
    have other : a ≠ f := by
      rw [built.address]
      omega
    have here : u.heap[a]? = some el := built.grown.found found
    apply Ends.bind
    show Ends (floatingActionButtonBuilder a f) (u.modify a (.withFragment f)) _ _
    have held := (modify_get_other (.withFragment f) other).trans cell
    unfold Ends Mirrored
    rw [floatingActionButtonBuilder_eq held]
    by_cases empty : fragment.children = some []
    · simp only [empty, if_true, modify_scheduled, tasks]
      refine reflected.attach here bare cell kind parent other (fun _ => rfl) (fun _ => rfl) (fun _ => rfl) rfl ?_
      rw [empty]
      exact (reflected.filled a el here).bare bare
    · simp only [empty, if_false, tasks, Store.modify, List.modify_modify_eq]
      refine reflected.attach here bare cell kind parent other (fun _ => rfl) (fun _ => rfl) (fun _ => rfl) rfl ?_
      cases fragment.children <;> rfl
  · simp only [present]
    exact Ends.pure mirrored

theorem createNodeElement_mirrors (object : Object) : Mirrors createNodeElement object := by
  generalize bound : object.depth = n
  induction n using Nat.strongRecOn generalizing object with
  | ind n ih =>
    have creates (below : Object) (_ : below.depth < object.depth) : Creates createNodeElement below :=
      createNodeElement_creates below
    have mirrors (below : Object) (small : below.depth < object.depth) : Mirrors createNodeElement below :=
      ih below.depth (by omega) below rfl
    intro parent s wf inside mirrored
    rw [createNodeElement_eq]
    unfold createStep
    apply ends_cast
    case absent => exact fun _ => mirrored
    intro tag _
    have base (kind : Kind) (plain : kind ≠ .root) (solid : kind ≠ .fragment) :
        Ends (sanoElement createNodeElement kind object (some parent)) s
          (fun a t => (∃ el, t.heap[a]? = some el ∧ el.kind = kind ∧ el.fragment = none) ∧ WellFormed t ∧ Mirrored t)
          fun _ t => Mirrored t := by
      apply ((sanoElement_ends creates kind (some parent) s wf (by simpa using inside) (by simp [plain])
        (fun fragment => absurd fragment solid)).both
        (sanoElement_mirrors creates mirrors kind (some parent) s wf (by simpa using inside) (by simp [plain])
          (fun fragment => absurd fragment solid) mirrored)).mono
      · rintro a t ⟨⟨built, ⟨el, cell, own, bare⟩, _⟩, earlier, tasks, reflected⟩
        refine ⟨⟨el, cell, own, bare⟩, built.wf, ?_⟩
        rw [Mirrored, tasks]
        exact reflected.schedule (held_plain cell (own ▸ solid))
      · exact fun _ _ thrown => thrown.2
    by_cases scaffold : tag = "scaffold"
    · simp only [scaffold, if_true]
      apply Ends.bind
      apply (base .scaffold (by decide) (by decide)).mono
      · rintro a t ⟨⟨el, cell, kind, bare⟩, wf', after⟩
        apply Ends.bind
        apply (initSlots_mirror creates mirrors wf' cell kind bare after).mono
        · exact fun _ _ filled => Ends.pure filled
        · exact fun _ _ thrown => thrown
      · exact fun _ _ thrown => thrown
    · simp only [scaffold, if_false]
      apply (base .element (by decide) (by decide)).mono
      · exact fun _ _ made => made.2.2
      · exact fun _ _ thrown => thrown

theorem rootElement_mirrors (payload : Json) (channel : String) {s : Store} (wf : WellFormed s) (mirrored : Mirrored s) :
    Ends (rootElement payload channel) s (fun _ t => Mirrored t) fun _ t => Mirrored t := by
  apply ends_cast
  case absent => exact fun _ => mirrored
  intro object _
  apply ((sanoElement_ends (fun below _ => createNodeElement_creates below) .root none s wf (by simp) (by simp)
    (by simp)).both
    (sanoElement_mirrors (fun below _ => createNodeElement_creates below) (fun below _ => createNodeElement_mirrors below)
      .root none s wf (by simp) (by simp) (by simp) mirrored)).mono
  · rintro a t ⟨⟨_, ⟨el, cell, kind, _⟩, _⟩, earlier, tasks, reflected⟩
    rw [Mirrored, tasks]
    exact reflected.schedule (held_plain cell (by simp [kind]))
  · exact fun _ _ thrown => thrown.2

end Construction

section Updates

variable {s t u : Store} {e : Nat} {el : Element}

theorem Mirrored.notify (mirrored : Mirrored s) (a : Nat) (value : Int) : Mirrored (s.notify a value) := by
  unfold Store.notify
  split
  · exact mirrored
  · exact Reflected.modify mirrored (fun _ => rfl) (fun _ => rfl) (fun _ => rfl) (fun _ => rfl) (.inl fun _ => rfl)

theorem newChildren_mirror (wf : WellFormed s) (bound : e < s.heap.length) (mirrored : Mirrored s) (items : List Json) :
    Ends (items.mapM (createItem createNodeElement e)) s (fun kids t => BuiltAll s t e kids ∧ Mirrored t)
      fun _ t => Grown s t ∧ Mirrored t := by
  apply ((items_ends items (fun _ _ object _ => createNodeElement_creates object) e s wf bound).both
    (items_mirror items (fun _ _ object _ => createNodeElement_creates object)
      (fun _ _ object _ => createNodeElement_mirrors object) e s wf bound mirrored)).mono
  · exact fun _ _ made => ⟨made.1.1, made.2⟩
  · exact fun _ _ thrown => ⟨thrown.1.1, thrown.2⟩

structure Plain (e : Nat) (s : Store) : Prop where
  wf : WellFormed s
  mirrored : Mirrored s
  cell : ∃ el, s.heap[e]? = some el ∧ el.kind ≠ .fragment

theorem Plain.unlinked (plain : Plain e s) (b : Nat) (owner : Element) (found : s.heap[b]? = some owner) :
    owner.fragment ≠ some e := by
  intro link
  obtain ⟨el, there, kind⟩ := plain.cell
  obtain ⟨cell, here, fragment⟩ := (plain.mirrored.filled b owner found).fragment e link
  cases Option.some.inj (there.symm.trans here)
  exact kind fragment

theorem updateKey_plain (plain : Plain e s) (renderObject : Object) (key : String) :
    Ends (updateKey e renderObject key) s (fun _ t => Plain e t) fun _ t => Mirrored t := by
  obtain ⟨el, found, kind⟩ := plain.cell
  have bound : e < s.heap.length := (List.getElem?_eq_some_iff.mp found).1
  unfold updateKey
  split
  · apply ends_cast
    case absent => exact fun _ => plain.mirrored
    intro items _
    apply Ends.bind
    apply (newChildren_mirror plain.wf bound plain.mirrored items).mono
    · rintro kids t ⟨all, mirrored⟩
      have cell := all.grown.found found
      have grown : Plain e t := ⟨all.wf, mirrored, el, cell, kind⟩
      refine ⟨((Edited.refl plain.wf found).children bound found plain.wf all).wf, ?_, _, modify_get_self _ cell, kind⟩
      exact Reflected.modify mirrored (fun _ => rfl) (fun _ => rfl) (fun _ => rfl) (fun _ => rfl) (.inr grown.unlinked)
    · exact fun _ _ thrown => thrown.2
  · split
    · apply ends_cast
      case absent => exact fun _ => plain.mirrored
      intro props _
      refine ⟨plain.wf.modify_same_shape (fun _ => rfl) (fun _ => rfl) fun _ => rfl, ?_, _, modify_get_self _ found, kind⟩
      exact Reflected.modify plain.mirrored (fun _ => rfl) (fun _ => rfl) (fun _ => rfl) (fun _ => rfl) (.inl fun _ => rfl)
    · exact Ends.pure plain

theorem keys_plain (plain : Plain e s) (renderObject : Object) (keys : List String) :
    Ends (keys.forM (updateKey e renderObject)) s (fun _ t => Plain e t) fun _ t => Mirrored t := by
  induction keys generalizing s with
  | nil => exact Ends.pure plain
  | cons key rest ih =>
    show Ends (updateKey e renderObject key >>= fun _ => rest.forM (updateKey e renderObject)) s _ _
    apply Ends.bind
    apply (updateKey_plain plain renderObject key).mono
    · exact fun _ _ after => ih after
    · exact fun _ _ thrown => thrown

theorem sanoUpdate_mirrors (plain : Plain e s) (renderObject : Object) (now : Int) :
    Ends (sanoUpdate e renderObject now) s (fun _ t => Mirrored t) fun _ t => Mirrored t := by
  apply Ends.bind
  apply (keys_plain plain renderObject renderObject.keys).mono
  · intro _ t after
    obtain ⟨el, found, _⟩ := after.cell
    unfold Ends
    rw [setNotifier_eq found]
    exact after.mirrored.notify e now
  · exact fun _ _ thrown => thrown

/-- The new children of a fragment come into the slot of its scaffold. -/
theorem Mirrored.refill {kids : List Nat} {holder : Nat} (mirrored : Mirrored u) (wf : WellFormed u)
    (found : u.heap[e]? = some el) (fragment : el.kind = .fragment) (parent : el.parent = some holder) (task : e ∈ u.scheduled) :
    Mirrored ((u.modify e (.withChildren (some kids))).modify holder (.withFloatingActionButton kids.head?)) := by
  obtain ⟨p, owner, above, there, link⟩ := mirrored.held e task el found fragment
  cases Option.some.inj (parent.symm.trans above)
  have other : e ≠ holder := by
    have below := (wf.sound e el found).parent holder parent
    omega
  refine Reflected.fill (f := e) (fun b held member apart => ?_) (fun g listed => ?_)
    ((modify_get_other _ other).trans there) (modify_get_self _ found) fragment (Ne.symm other) (fun g again => ?_)
    (fun _ => rfl) (fun _ => rfl) (fun _ => rfl) link rfl
  · obtain ⟨cell, before, same, button⟩ : ∃ cell, u.heap[b]? = some cell ∧ held.fragment = cell.fragment ∧
        held.floatingActionButton = cell.floatingActionButton := by
      rw [modify_get] at member
      split at member
      · obtain ⟨old, before, rfl⟩ := Option.map_eq_some_iff.mp member
        exact ⟨old, before, rfl, rfl⟩
      · exact ⟨held, member, rfl, rfl⟩
    refine (mirrored.filled b cell before).mono same button fun f inner joined here => ?_
    -- a fragment has one parent, so no other slot reads it
    have unlike : e ≠ f := by
      rintro rfl
      obtain ⟨_, _, again, back, owned⟩ := (wf.sound b cell before).links e (by simp [Element.links, joined])
      cases Option.some.inj (found.symm.trans back)
      exact apart (Option.some.inj (owned.symm.trans parent))
    exact ⟨inner, (modify_get_other _ unlike).trans here, rfl, rfl⟩
  · exact held_modify (mirrored.held g listed) (fun _ => rfl) (fun _ => rfl) fun _ _ link => link
  · exact Option.some.inj (again.symm.trans link)

theorem fragmentUpdate_mirrors (wf : WellFormed s) (mirrored : Mirrored s) (found : s.heap[e]? = some el)
    (fragment : el.kind = .fragment) (named : el.tag = "floating-action-button-fragment") (task : e ∈ s.scheduled)
    (renderObject : Object) (now : Int) :
    Ends (fragmentUpdate e renderObject now) s (fun _ t => Mirrored t) fun _ _ => True := by
  have bound : e < s.heap.length := (List.getElem?_eq_some_iff.mp found).1
  apply ends_cast
  case absent => exact fun _ => trivial
  intro items _
  apply Ends.bind
  apply (newChildren_mirror wf bound mirrored items).mono
  case onThrown => exact fun _ _ _ => trivial
  rintro kids u ⟨all, between⟩
  have here := all.grown.found found
  obtain ⟨holder, parent, owner, held, scaffold⟩ := (all.wf.sound e el here).holder fragment
  have other : e ≠ holder := by
    have below := (all.wf.sound e el here).parent holder owner
    omega
  let t := u.modify e (.withChildren (some kids))
  have cell : t.heap[e]? = some (el.withChildren (some kids)) := modify_get_self _ here
  have above : t.heap[holder]? = some parent := (modify_get_other _ other).trans held
  apply Ends.bind
  show Ends _ t _ _
  apply Ends.bind
  unfold Ends
  rw [show read e t = .ok (el.withChildren (some kids)) t by simp [read, cell]]
  simp only [Element.withChildren, owner]
  show Ends _ t _ _
  apply Ends.bind
  unfold Ends
  rw [show read holder t = .ok parent t by simp [read, above]]
  simp only [scaffold, if_true]
  show Ends (fillSlot e holder el.tag >>= fun _ => setNotifier holder now) t _ _
  apply Ends.bind
  rw [fillSlot_eq, if_pos named]
  unfold Ends
  rw [floatingActionButtonBuilder_eq cell]
  by_cases empty : kids = []
  · rw [if_pos (by simp [Element.withChildren, empty])]
    trivial
  · rw [if_neg (by simp [Element.withChildren, empty])]
    show Ends (setNotifier holder now) (t.modify holder (.withFloatingActionButton kids.head?)) _ _
    unfold Ends
    rw [setNotifier_eq (modify_get_self _ above)]
    exact (between.refill all.wf here fragment owner (all.grown.tasks.subset task)).notify holder now

end Updates

end Sano.Render
