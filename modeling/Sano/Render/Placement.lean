import Sano.Render.Registry

namespace Sano.Render

section Ownership

def Owned (t : Store) (low b : Nat) : Prop :=
  ∃ el p owner, t.heap[b]? = some el ∧ el.parent = some p ∧ low ≤ p ∧ t.heap[p]? = some owner ∧ b ∈ owner.links

def Keeps (low : Nat) (t u : Store) : Prop :=
  ∀ (a : Nat) (el : Element), low ≤ a → t.heap[a]? = some el →
    ∃ el', u.heap[a]? = some el' ∧ el'.parent = el.parent ∧ ∀ c ∈ el.links, c ∈ el'.links

def Spread (s t : Store) (tops : List Nat) : Prop :=
  ∀ b, s.heap.length ≤ b → b < t.heap.length → b ∈ tops ∨ Owned t s.heap.length b

structure Placed (s t : Store) (parent : Option Nat) : Prop where
  tasks : ∃ more, t.scheduled = s.scheduled ++ more ∧ ∀ b ∈ more, s.heap.length ≤ b
  parents : ∀ (b : Nat) (el : Element), s.heap.length ≤ b → t.heap[b]? = some el →
    el.parent = parent ∨ ∃ p, el.parent = some p ∧ s.heap.length ≤ p

variable {s t u : Store} {low b : Nat}

theorem Owned.lower {high : Nat} (owned : Owned t high b) (below : low ≤ high) : Owned t low b := by
  obtain ⟨el, p, owner, found, parent, above, held, member⟩ := owned
  exact ⟨el, p, owner, found, parent, by omega, held, member⟩

theorem Owned.keep (owned : Owned t low b) (above : low ≤ b) (keeps : Keeps low t u) : Owned u low b := by
  obtain ⟨el, p, owner, found, parent, inside, held, member⟩ := owned
  obtain ⟨el', found', same, _⟩ := keeps b el above found
  obtain ⟨owner', held', _, links⟩ := keeps p owner inside held
  exact ⟨el', p, owner', found', same.trans parent, inside, held', links b member⟩

theorem Keeps.trans {v : Store} (first : Keeps low t u) (second : Keeps low u v) : Keeps low t v := by
  intro a el above found
  obtain ⟨el', found', same, links⟩ := first a el above found
  obtain ⟨el'', found'', same', links'⟩ := second a el' above found'
  exact ⟨el'', found'', same'.trans same, fun c member => links' c (links c member)⟩

theorem Grown.keeps (grown : Grown t u) (low : Nat) : Keeps low t u := fun _ el _ found =>
  ⟨el, grown.found found, rfl, fun _ member => member⟩

theorem keeps_modify {a : Nat} (change : Element → Element) (parents : ∀ el, (change el).parent = el.parent)
    (links : ∀ el, t.heap[a]? = some el → ∀ c ∈ el.links, c ∈ (change el).links) (low : Nat) :
    Keeps low t (t.modify a change) := by
  intro b el _ found
  by_cases same : a = b
  · subst same
    exact ⟨_, modify_get_self change found, parents el, links el found⟩
  · exact ⟨el, (modify_get_other change same).trans found, rfl, fun _ member => member⟩

theorem keeps_modify_below {a : Nat} (change : Element → Element) (below : a < low) :
    Keeps low t (t.modify a change) := fun b el above found =>
  ⟨el, (modify_get_other change (by omega)).trans found, rfl, fun _ member => member⟩

theorem Placed.refl (s : Store) (parent : Option Nat) : Placed s s parent := by
  refine ⟨⟨[], by simp, by simp⟩, fun b el new found => ?_⟩
  have := (List.getElem?_eq_some_iff.mp found).1
  omega

theorem Keeps.old (keeps : Keeps 0 t u) (a : Nat) (el : Element) (bound : a < t.heap.length)
    (found : u.heap[a]? = some el) : ∃ old, t.heap[a]? = some old ∧ el.parent = old.parent := by
  obtain ⟨old, held⟩ : ∃ old, t.heap[a]? = some old := ⟨_, List.getElem?_eq_getElem bound⟩
  obtain ⟨el', found', same, _⟩ := keeps a old (Nat.zero_le _) held
  cases Option.some.inj (found.symm.trans found')
  exact ⟨old, held, same⟩

theorem Placed.trans {parent inner : Option Nat} (first : Placed s t parent) (second : Placed t u inner)
    (keeps : Keeps 0 t u) (longer : s.heap.length ≤ t.heap.length)
    (under : inner = parent ∨ ∃ p, inner = some p ∧ s.heap.length ≤ p) : Placed s u parent := by
  obtain ⟨more, scheduled, new⟩ := first.tasks
  obtain ⟨more', scheduled', new'⟩ := second.tasks
  refine ⟨⟨more ++ more', by rw [scheduled', scheduled, List.append_assoc], fun b member => ?_⟩, fun b el above found => ?_⟩
  · rcases List.mem_append.mp member with early | late
    · exact new b early
    · exact Nat.le_trans longer (new' b late)
  · rcases Nat.lt_or_ge b t.heap.length with old | fresh
    · obtain ⟨before, held, same⟩ := keeps.old b el old found
      rw [same]
      exact first.parents b before above held
    · rcases second.parents b el fresh found with given | ⟨p, parent, inside⟩
      · rw [given]
        exact under
      · exact .inr ⟨p, parent, Nat.le_trans longer inside⟩

theorem inTree_link {heap : List Element} {root a b : Nat} {el : Element} (inTree : InTree heap root a)
    (found : heap[a]? = some el) (member : b ∈ el.links) : InTree heap root b := by
  obtain ⟨path, reached⟩ := inTree
  obtain ⟨step, next⟩ := links_next member
  refine ⟨path ++ [step], ?_⟩
  rw [follow_append, reached, Option.bind_some, follow_cons found next]
  rfl

theorem inTree_trans {heap : List Element} {root a b : Nat} (first : InTree heap root a) (second : InTree heap a b) :
    InTree heap root b := by
  obtain ⟨path, reached⟩ := first
  obtain ⟨rest, further⟩ := second
  exact ⟨path ++ rest, by rw [follow_append, reached, Option.bind_some, further]⟩

/-- What hangs below the tops of what was made is in every tree that has the tops. -/
theorem Spread.inTree {tops : List Nat} {root : Nat} (spread : Spread s t tops) (wf : WellFormed t)
    (reached : ∀ k ∈ tops, InTree t.heap root k) (bound : b < t.heap.length) (new : s.heap.length ≤ b) :
    InTree t.heap root b := by
  induction b using Nat.strongRecOn with
  | ind b ih =>
    rcases spread b new bound with top | ⟨el, p, owner, found, parent, above, held, member⟩
    · exact reached b top
    · have lower := (wf.sound b el found).parent p parent
      exact inTree_link (ih p lower (Nat.lt_trans lower bound) above) held member

theorem Keeps.inTree {root a : Nat} (keeps : Keeps 0 t u) (inTree : InTree t.heap root a) : InTree u.heap root a := by
  obtain ⟨path, reached⟩ := inTree
  induction path using List.reverseRecOn generalizing a with
  | nil =>
    cases reached
    exact ⟨[], rfl⟩
  | append_singleton path step ih =>
    obtain ⟨b, owner, earlier, held, next⟩ := follow_last reached
    obtain ⟨owner', held', _, links⟩ := keeps b owner (Nat.zero_le _) held
    exact inTree_link (ih earlier) held' (links a (next_mem next))

end Ownership

section Constructors

def Places (create : Object → Nat → Dart Nat) (object : Object) : Prop :=
  ∀ parent s, WellFormed s → parent < s.heap.length →
    Ends (create object parent) s (fun a t => Placed s t (some parent) ∧ Spread s t [a])
      (fun _ t => Placed s t (some parent))

theorem createItem_places {create : Object → Nat → Dart Nat} {item : Json}
    (creates : ∀ object, item.asMap = some object → Creates create object)
    (places : ∀ object, item.asMap = some object → Places create object)
    (parent : Nat) (s : Store) (wf : WellFormed s) (bound : parent < s.heap.length) :
    Ends (createItem create parent item) s
      (fun a t => Built s t (some parent) a ∧ Placed s t (some parent) ∧ Spread s t [a])
      (fun _ t => Placed s t (some parent)) := by
  refine ((createItem_ends creates parent s wf bound).both ?_).mono (fun a t both => ⟨both.1.1, both.2⟩)
    fun _ t both => both.2
  apply ends_cast
  · intro object cast
    exact places object cast parent s wf bound
  · intro _
    exact .refl s _

theorem items_places {create : Object → Nat → Dart Nat} (items : List Json)
    (creates : ∀ item ∈ items, ∀ object, item.asMap = some object → Creates create object)
    (places : ∀ item ∈ items, ∀ object, item.asMap = some object → Places create object)
    (parent : Nat) (s : Store) (wf : WellFormed s) (bound : parent < s.heap.length) :
    Ends (items.mapM (createItem create parent)) s (fun kids t => Placed s t (some parent) ∧ Spread s t kids)
      (fun _ t => Placed s t (some parent)) := by
  induction items generalizing s with
  | nil =>
    apply Ends.pure
    refine ⟨.refl s _, fun b above below => ?_⟩
    omega
  | cons item rest ih =>
    rw [List.mapM_cons]
    apply Ends.bind
    apply (createItem_places (creates item (by simp)) (places item (by simp)) parent s wf bound).mono
    · rintro k middle ⟨built, placed, spread⟩
      have longer := built.grown.longer
      have later := (items_ends rest (fun item member => creates item (by simp [member])) parent middle built.wf
        (by omega)).both (ih (fun item member => creates item (by simp [member]))
          (fun item member => places item (by simp [member])) middle built.wf (by omega))
      apply Ends.bind
      apply later.mono
      · rintro kids t ⟨⟨all, _⟩, placed', spread'⟩
        apply Ends.pure
        refine ⟨placed.trans placed' (all.grown.keeps 0) longer (.inl rfl), fun b above below => ?_⟩
        rcases Nat.lt_or_ge b middle.heap.length with early | late
        · rcases spread b above early with first | owned
          · exact .inl (List.mem_cons.mpr (.inl (List.mem_singleton.mp first)))
          · exact .inr (owned.keep above (all.grown.keeps _))
        · rcases spread' b late below with kid | owned
          · exact .inl (List.mem_cons_of_mem _ kid)
          · exact .inr (owned.lower longer)
      · rintro error t ⟨⟨grown, _⟩, placed'⟩
        exact placed.trans placed' (grown.keeps 0) longer (.inl rfl)
    · exact fun _ _ placed => placed

/-- What the children of a new object leave, seen from before the object. -/
theorem Placed.around {s t : Store} {el : Element} (grown : Grown { s with heap := s.heap ++ [el] } t)
    (placed : Placed { s with heap := s.heap ++ [el] } t (some s.heap.length)) : Placed s t el.parent := by
  obtain ⟨more, scheduled, new⟩ := placed.tasks
  simp only [List.length_append, List.length_singleton] at new
  refine ⟨⟨more, scheduled, fun b member => by have := new b member; omega⟩, fun b held above found => ?_⟩
  by_cases here : b = s.heap.length
  · have same : t.heap[b]? = some el := by
      rw [grown.cells b (by simp [here]), here]
      simp
    cases Option.some.inj (same.symm.trans found)
    exact .inl rfl
  · rcases placed.parents b held (by simp; omega) found with given | ⟨p, parent, inside⟩
    · exact .inr ⟨_, given, Nat.le_refl _⟩
    · simp only [List.length_append, List.length_singleton] at inside
      exact .inr ⟨p, parent, by omega⟩

/-- The end of a constructor: the children get their link, and the object its task. -/
theorem finish_places {s t : Store} {el : Element} (kids : Option (List Nat))
    (grown : Grown { s with heap := s.heap ++ [el] } t)
    (placed : Placed { s with heap := s.heap ++ [el] } t (some s.heap.length))
    (spread : Spread { s with heap := s.heap ++ [el] } t (kids.getD []))
    (each : ∀ k ∈ kids.getD [], ∃ c, t.heap[k]? = some c ∧ c.parent = some s.heap.length) :
    let u := { t.modify s.heap.length (.withChildren kids) with scheduled := t.scheduled ++ [s.heap.length] }
    Placed s u el.parent ∧ Spread s u [s.heap.length] := by
  intro u
  have around := placed.around grown
  have found : t.heap[s.heap.length]? = some el := by
    rw [grown.cells s.heap.length (by simp)]
    simp
  have cell : u.heap[s.heap.length]? = some (el.withChildren kids) := modify_get_self _ found
  have other (b : Nat) (apart : s.heap.length ≠ b) : u.heap[b]? = t.heap[b]? := modify_get_other _ apart
  refine ⟨⟨?_, fun b held above here => ?_⟩, fun b above below => ?_⟩
  · obtain ⟨more, scheduled, new⟩ := around.tasks
    refine ⟨more ++ [s.heap.length], by simp [u, scheduled], fun b member => ?_⟩
    rcases List.mem_append.mp member with early | late
    · exact new b early
    · exact Nat.le_of_eq (List.mem_singleton.mp late).symm
  · by_cases same : s.heap.length = b
    · subst same
      cases Option.some.inj (cell.symm.trans here)
      exact .inl rfl
    · exact around.parents b held above ((other b same).symm.trans here)
  · by_cases same : s.heap.length = b
    · exact .inl (by simp [same])
    · have length : u.heap.length = t.heap.length := by simp [u, Store.modify]
      rcases spread b (by simp; omega) (by omega) with kid | owned
      · obtain ⟨c, there, parent⟩ := each b kid
        refine .inr ⟨c, s.heap.length, el.withChildren kids, (other b same).trans there, parent, Nat.le_refl _, cell, ?_⟩
        exact List.mem_append_left _ kid
      · rw [List.length_append, List.length_singleton] at owned
        have kept : Owned u (s.heap.length + 1) b := owned.keep (by omega) fun a held inside here =>
          ⟨held, (other a (by omega)).trans here, rfl, fun _ member => member⟩
        exact .inr (kept.lower (by omega))

theorem sanoElement_places {create : Object → Nat → Dart Nat} {renderObject : Object}
    (creates : ∀ below : Object, below.depth < renderObject.depth → Creates create below)
    (places : ∀ below : Object, below.depth < renderObject.depth → Places create below)
    (kind : Kind) (parent : Option Nat) (s : Store) (wf : WellFormed s)
    (bound : ∀ p, parent = some p → p < s.heap.length) (orphan : kind = .root ↔ parent = none)
    (holder : kind = .fragment → ∃ p c, parent = some p ∧ s.heap[p]? = some c ∧ c.kind = .scaffold) :
    Ends (sanoElement create kind renderObject parent) s (fun a t => Placed s t parent ∧ Spread s t [a])
      (fun _ t => Placed s t parent) := by
  unfold sanoElement
  refine ends_cast ?_ fun _ => Placed.refl s _
  intro id _
  refine ends_cast ?_ fun _ => Placed.refl s _
  intro tag _
  refine ends_cast ?_ fun _ => Placed.refl s _
  intro props _
  refine ends_cast ?_ fun _ => Placed.refl s _
  intro events _
  let el : Element := { kind, id, tag, props := props.getD ∅, events, parent }
  have wf₁ : WellFormed { s with heap := s.heap ++ [el] } := wf.alloc rfl bound orphan holder
  apply Ends.bind
  show Ends _ { s with heap := s.heap ++ [el] } _ _
  have alone : Placed s { s with heap := s.heap ++ [el] } parent := (Placed.refl _ _).around (.refl _)
  refine ends_cast ?_ fun _ => alone
  intro items hasItems
  cases items with
  | none =>
    refine finish_places none (.refl _) (.refl _ _) (fun b above below => ?_) (by simp)
    omega
  | some items =>
    have inside (item : Json) (member : item ∈ items) (object : Object) (cast : item.asMap = some object) :
        object.depth < renderObject.depth := item_depth (asList_of_asListOrNull hasItems) member cast
    have lower := fun item member object cast => creates object (inside item member object cast)
    apply Ends.bind
    apply ((items_ends items lower s.heap.length _ wf₁ (by simp)).both
      (items_places items lower (fun item member object cast => places object (inside item member object cast))
        s.heap.length _ wf₁ (by simp))).mono
    · rintro kids t ⟨⟨all, _⟩, placed, spread⟩
      exact finish_places (some kids) all.grown placed spread fun k member => (all.each k member).2.2
    · rintro error t ⟨⟨grown, _⟩, placed⟩
      exact placed.around grown

theorem Placed.modify {s t : Store} {parent : Option Nat} {a : Nat} {change : Element → Element}
    (placed : Placed s t parent) (parents : ∀ el, (change el).parent = el.parent) :
    Placed s (t.modify a change) parent := by
  refine ⟨placed.tasks, fun b el above found => ?_⟩
  rw [modify_get] at found
  split at found
  · obtain ⟨old, held, rfl⟩ := Option.map_eq_some_iff.mp found
    rw [parents]
    exact placed.parents b old above held
  · exact placed.parents b el above found

theorem attach_places {t u : Store} {a f : Nat} {el : Element} (bound : a < t.heap.length)
    (found : t.heap[a]? = some el) (bare : el.fragment = none) (built : Built t u (some a) f)
    (placed : Placed t u (some a)) (spread : Spread t u [f]) :
    Placed t (u.modify a (.withFragment f)) (some a) ∧ Keeps 0 t (u.modify a (.withFragment f)) ∧
      ∀ b, t.heap.length ≤ b → b < (u.modify a (.withFragment f)).heap.length →
        Owned (u.modify a (.withFragment f)) a b := by
  have here : u.heap[a]? = some el := built.grown.found found
  have links : (el.withFragment f).links = el.links ++ [f] := by
    simp [Element.links, Element.withFragment, bare]
  refine ⟨placed.modify fun _ => rfl, (built.grown.keeps 0).trans (keeps_modify (.withFragment f) (fun _ => rfl) ?_ 0), ?_⟩
  · intro old held c member
    cases Option.some.inj (here.symm.trans held)
    rw [links]
    exact List.mem_append_left _ member
  · intro b above below
    rcases spread b above (by simpa using below) with same | owned
    · rw [List.mem_singleton] at same
      subst same
      obtain ⟨c, cell, parent⟩ := built.cell
      refine ⟨c, a, el.withFragment b, ?_, parent, Nat.le_refl _, modify_get_self _ here, by simp [links]⟩
      exact (modify_get_other _ (by omega)).trans cell
    · exact (owned.keep above (keeps_modify_below _ bound)).lower (by omega)

/-- The fragment gets its link from the scaffold before the slot is filled. -/
theorem initSlots_places {create : Object → Nat → Dart Nat} {renderObject : Object}
    (creates : ∀ below : Object, below.depth < renderObject.depth → Creates create below)
    (places : ∀ below : Object, below.depth < renderObject.depth → Places create below)
    {t : Store} {a : Nat} {el : Element} (wf : WellFormed t) (found : t.heap[a]? = some el)
    (scaffold : el.kind = .scaffold) (bare : el.fragment = none) :
    Ends (initSlots create renderObject a) t
      (fun _ v => Placed t v (some a) ∧ Keeps 0 t v ∧
        ∀ b, t.heap.length ≤ b → b < v.heap.length → Owned v a b)
      (fun _ v => Placed t v (some a) ∧ Keeps 0 t v) := by
  have bound : a < t.heap.length := (List.getElem?_eq_some_iff.mp found).1
  have still : Keeps 0 t t := (Grown.refl t).keeps 0
  rw [initSlots_eq]
  unfold initSlot
  by_cases present : renderObject.containsKey "floating-action-button-fragment" = true
  · simp only [present, if_true]
    refine ends_cast ?_ fun _ => ⟨.refl t _, still⟩
    intro object cast
    have lower : object.depth < renderObject.depth :=
      Nat.lt_of_lt_of_le (asMap_depth cast) (field_depth renderObject _)
    have fragment := (sanoElement_ends (fun below small => creates below (Nat.lt_trans small lower)) .fragment
      (some a) t wf (by simpa using bound) (by simp) (fun _ => ⟨a, el, rfl, found, scaffold⟩)).both
      (sanoElement_places (fun below small => creates below (Nat.lt_trans small lower))
        (fun below small => places below (Nat.lt_trans small lower)) .fragment (some a) t wf (by simpa using bound)
        (by simp) (fun _ => ⟨a, el, rfl, found, scaffold⟩))
    apply Ends.bind
    apply fragment.mono
    · rintro f u ⟨⟨built, ⟨cell, held, _⟩, _⟩, placed, spread⟩
      apply Ends.bind
      show Ends (floatingActionButtonBuilder a f) (u.modify a (.withFragment f)) _ _
      obtain ⟨linked, keeps, owned⟩ := attach_places bound found bare built placed spread
      have apart : a ≠ f := by
        rw [built.address]
        omega
      unfold Ends
      rw [floatingActionButtonBuilder_eq ((modify_get_other _ apart).trans held)]
      by_cases empty : cell.children = some []
      · rw [if_pos empty]
        exact ⟨linked, keeps⟩
      · rw [if_neg empty]
        have filled (low : Nat) : Keeps low (u.modify a (.withFragment f)) ((u.modify a (.withFragment f)).modify a
            (.withFloatingActionButton (cell.children.getD []).head?)) :=
          keeps_modify (.withFloatingActionButton _) (fun _ => rfl) (fun _ _ _ member => member) low
        refine ⟨linked.modify fun _ => rfl, keeps.trans (filled 0), fun b above below => ?_⟩
        exact (owned b above (by simpa using below)).keep (by omega) (filled a)
    · rintro error u ⟨⟨grown, _⟩, placed⟩
      exact ⟨placed, grown.keeps 0⟩
  · simp only [present]
    refine ⟨.refl t _, still, fun b above below => ?_⟩
    omega

/-- Every constructor leaves all it has made below its result. -/
theorem createNodeElement_places (object : Object) : Places createNodeElement object := by
  generalize bound : object.depth = n
  induction n using Nat.strongRecOn generalizing object with
  | ind n ih =>
    have creates : ∀ below : Object, below.depth < object.depth → Creates createNodeElement below :=
      fun below _ => createNodeElement_creates below
    have places : ∀ below : Object, below.depth < object.depth → Places createNodeElement below :=
      fun below small => ih below.depth (by omega) below rfl
    intro parent s wf inside
    rw [createNodeElement_eq]
    unfold createStep
    refine ends_cast ?_ fun _ => .refl s _
    intro tag _
    have base (kind : Kind) (plain : kind ≠ .root) (solid : kind ≠ .fragment) :=
      (sanoElement_ends creates kind (some parent) s wf (by simpa using inside) (by simp [plain])
        (fun fragment => absurd fragment solid)).both
        (sanoElement_places creates places kind (some parent) s wf (by simpa using inside) (by simp [plain])
          (fun fragment => absurd fragment solid))
    by_cases scaffold : tag = "scaffold"
    · simp only [scaffold, if_true]
      apply Ends.bind
      apply (base .scaffold (by decide) (by decide)).mono
      · rintro a t ⟨⟨built, ⟨el, cell, kind, bare⟩, _⟩, placed, spread⟩
        have new : s.heap.length ≤ a := Nat.le_of_eq built.address.symm
        have whole {v : Store} (slot : Placed t v (some a)) (keeps : Keeps 0 t v) : Placed s v (some parent) :=
          placed.trans slot keeps built.grown.longer (.inr ⟨a, rfl, new⟩)
        apply Ends.bind
        apply (initSlots_places creates places built.wf cell kind bare).mono
        · rintro _ v ⟨slot, keeps, owned⟩
          apply Ends.pure
          refine ⟨whole slot keeps, fun b above below => ?_⟩
          rcases Nat.lt_or_ge b t.heap.length with early | late
          · rcases spread b above early with here | held
            · exact .inl here
            · exact .inr (held.keep above fun a el _ found => keeps a el (Nat.zero_le _) found)
          · exact .inr ((owned b late below).lower new)
        · rintro error v ⟨slot, keeps⟩
          exact whole slot keeps
      · rintro error t ⟨_, placed⟩
        exact placed
    · simp only [scaffold, if_false]
      apply (base .element (by decide) (by decide)).mono
      · rintro a t ⟨_, placed, spread⟩
        exact ⟨placed, spread⟩
      · rintro error t ⟨_, placed⟩
        exact placed

theorem rootElement_places (payload : Json) (channel : String) (s : Store) (wf : WellFormed s) :
    Ends (rootElement payload channel) s (fun a t => Placed s t none ∧ Spread s t [a])
      (fun _ t => Placed s t none) := by
  refine ends_cast ?_ fun _ => .refl s _
  intro object _
  exact sanoElement_places (fun below _ => createNodeElement_creates below)
    (fun below _ => createNodeElement_places below) .root none s wf (by simp) (by simp) (by simp)

end Constructors

section Updates

def Marks (s u : Store) : Prop :=
  u.builders.map Builder.element = s.builders.map Builder.element ∧
    ((∃ b ∈ s.builders, b.dirty = true) → ∃ b ∈ u.builders, b.dirty = true)

structure Calm (s u : Store) : Prop where
  keeps : Keeps 0 s u
  length : u.heap.length = s.heap.length
  scheduled : u.scheduled = s.scheduled
  marks : Marks s u

structure Sprouts (s t : Store) (e : Nat) : Prop where
  tasks : ∃ more, t.scheduled = s.scheduled ++ more ∧ ∀ b ∈ more, s.heap.length ≤ b
  below : ∀ b, s.heap.length ≤ b → b < t.heap.length → InTree t.heap e b

variable {s t u : Store} {e : Nat} {el : Element}

theorem Marks.refl (s : Store) : Marks s s := ⟨rfl, fun dirty => dirty⟩

theorem Marks.trans (first : Marks s t) (second : Marks t u) : Marks s u :=
  ⟨second.1.trans first.1, fun dirty => second.2 (first.2 dirty)⟩

theorem marks_of_eq (same : u.builders = s.builders) : Marks s u := ⟨by rw [same], fun dirty => by rwa [same]⟩

theorem marks_notify (s : Store) (a : Nat) (value : Int) : Marks s (s.notify a value) := by
  unfold Store.notify
  split
  · exact .refl s
  · refine ⟨(Repainted.mark s a).builders, ?_⟩
    rintro ⟨b, member, dirty⟩
    refine ⟨_, List.mem_map_of_mem member, ?_⟩
    split
    · rfl
    · exact dirty

theorem Calm.refl (s : Store) : Calm s s := ⟨(Grown.refl s).keeps 0, rfl, rfl, .refl s⟩

theorem Calm.trans (first : Calm s t) (second : Calm t u) : Calm s u :=
  ⟨first.keeps.trans second.keeps, second.length.trans first.length, second.scheduled.trans first.scheduled,
    first.marks.trans second.marks⟩

theorem Repainted.keeps (repainted : Repainted s t) (low : Nat) : Keeps low s t := by
  intro a el _ found
  obtain ⟨el', found', same⟩ := repainted.cells a el found
  refine ⟨el', found', same.parent, fun c member => ?_⟩
  simpa [Element.links, same.children, same.fragment] using member

theorem calm_notify (s : Store) (a : Nat) (value : Int) : Calm s (s.notify a value) :=
  ⟨(Repainted.notify s a value).keeps 0, (Repainted.notify s a value).length, (Repainted.notify s a value).scheduled,
    marks_notify s a value⟩

theorem read_ends (a : Nat) (s : Store) :
    Ends (read a) s (fun el t => s = t ∧ s.heap[a]? = some el) fun _ _ => True := by
  unfold Ends read
  cases s.heap[a]? with
  | none => trivial
  | some el => exact ⟨rfl, rfl⟩

theorem setNotifier_calm (a : Nat) (value : Int) (s : Store) :
    Ends (setNotifier a value) s (fun _ u => Calm s u) fun _ _ => True := by
  cases found : s.heap[a]? with
  | none => simp [Ends, setNotifier, found]
  | some el =>
    unfold Ends
    rw [setNotifier_eq found]
    exact calm_notify s a value

theorem fillSlot_calm (self holder : Nat) (tag : String) (s : Store) :
    Ends (fillSlot self holder tag) s (fun _ u => Calm s u) fun _ _ => True := by
  rw [fillSlot_eq]
  split
  · cases found : s.heap[self]? with
    | none => simp [Ends, floatingActionButtonBuilder, read, Bind.bind, EStateM.bind, found]
    | some el =>
      unfold Ends
      rw [floatingActionButtonBuilder_eq found]
      by_cases empty : el.children = some []
      · rw [if_pos empty]
        trivial
      · rw [if_neg empty]
        exact ⟨keeps_modify (.withFloatingActionButton _) (fun _ => rfl) (fun _ _ _ member => member) 0, by simp, rfl,
          .refl s⟩
  · exact Ends.pure (.refl s)

theorem calm_mergeProps (s : Store) (e : Nat) (props : Object) : Calm s (s.modify e (.mergeProps props)) :=
  ⟨keeps_modify (.mergeProps props) (fun _ => rfl) (fun _ _ _ member => member) 0, by simp, rfl, .refl s⟩

theorem keys_calm (e : Nat) {renderObject : Object} (keys : List String)
    (missing : "children" ∈ keys → (renderObject.field "children").asList = none) (s : Store) :
    Ends (keys.forM (updateKey e renderObject)) s (fun _ u => Calm s u) fun _ u => Calm s u := by
  induction keys generalizing s with
  | nil => exact .refl s
  | cons key rest ih =>
    have later := ih fun member => missing (List.mem_cons_of_mem _ member)
    show Ends (updateKey e renderObject key >>= fun _ => rest.forM (updateKey e renderObject)) s _ _
    apply Ends.bind
    unfold updateKey
    by_cases children : key = "children"
    · rw [if_pos children, missing (by simp [children])]
      exact ends_cast (fun _ some => nomatch some) fun _ => .refl s
    · rw [if_neg children]
      split
      · refine ends_cast ?_ fun _ => .refl s
        intro props _
        show Ends (rest.forM _) (s.modify e (.mergeProps props)) _ _
        have merged := calm_mergeProps s e props
        exact (later _).mono (fun _ _ calm => merged.trans calm) fun _ _ calm => merged.trans calm
      · exact later s

theorem update_read (found : s.heap[e]? = some el) (renderObject : Object) (now : Int) :
    update e renderObject now s =
      (if el.kind = .fragment then fragmentUpdate e renderObject now else sanoUpdate e renderObject now) s := by
  have loaded : read e s = .ok el s := by simp [read, found]
  simp only [update, Bind.bind, EStateM.bind, loaded]

/-- An update without a list of children makes nothing and unlinks nothing, whether it ends normally or not. -/
theorem update_calm (found : s.heap[e]? = some el) {renderObject : Object}
    (missing : (renderObject.field "children").asList = none) (now : Int) :
    Ends (update e renderObject now) s (fun _ u => Calm s u) fun _ u => Calm s u := by
  unfold Ends
  rw [update_read found]
  by_cases fragment : el.kind = .fragment
  · rw [if_pos fragment]
    show Ends (fragmentUpdate e renderObject now) s _ _
    unfold fragmentUpdate
    rw [missing]
    exact .refl s
  · rw [if_neg fragment]
    show Ends (sanoUpdate e renderObject now) s _ _
    apply Ends.bind
    apply (keys_calm e _ (fun _ => missing) s).mono
    · intro _ t calm
      obtain ⟨el', found', _⟩ := calm.keeps e el (Nat.zero_le _) found
      unfold Ends
      rw [setNotifier_eq found']
      exact calm.trans (calm_notify t e now)
    · exact fun _ _ calm => calm

theorem Sprouts.calm (sprouts : Sprouts s t e) (calm : Calm t u) : Sprouts s u e := by
  refine ⟨by rw [calm.scheduled]; exact sprouts.tasks, fun b above below => ?_⟩
  exact calm.keeps.inTree (sprouts.below b above (by rw [← calm.length]; exact below))

theorem children_sprout {kids : List Nat} (found : s.heap[e]? = some el) (wf : WellFormed s)
    (all : BuiltAll s t e kids) (placed : Placed s t (some e)) (spread : Spread s t kids) :
    Sprouts s (t.modify e (.withChildren (some kids))) e := by
  have bound : e < s.heap.length := (List.getElem?_eq_some_iff.mp found).1
  have edited := (Edited.refl wf found).children bound found wf all
  have cell : (t.modify e (.withChildren (some kids))).heap[e]? = some (el.withChildren (some kids)) :=
    modify_get_self _ (all.grown.found found)
  have moved : Spread s (t.modify e (.withChildren (some kids))) kids := by
    intro b above below
    rcases spread b above (by simpa using below) with kid | owned
    · exact .inl kid
    · exact .inr (owned.keep above (keeps_modify_below _ bound))
  refine ⟨placed.tasks, fun b above below => ?_⟩
  refine moved.inTree edited.wf (fun k member => ?_) below above
  exact inTree_link ⟨[], rfl⟩ cell (List.mem_append_left _ member)

/-- New children, with all that hangs below them, come under the element that gets them. -/
theorem newChildren_sprout (wf : WellFormed s) (found : s.heap[e]? = some el) (items : List Json) :
    Ends (items.mapM (createItem createNodeElement e)) s
      (fun kids t => Sprouts s (t.modify e (.withChildren (some kids))) e) fun _ _ => True := by
  have bound : e < s.heap.length := (List.getElem?_eq_some_iff.mp found).1
  have creates := fun item (_ : item ∈ items) object (_ : item.asMap = some object) => createNodeElement_creates object
  apply ((items_ends items creates e s wf bound).both
    (items_places items creates (fun _ _ object _ => createNodeElement_places object) e s wf bound)).mono
  · rintro kids t ⟨⟨all, _⟩, placed, spread⟩
    exact children_sprout found wf all placed spread
  · exact fun _ _ _ => trivial

theorem Calm.sprouts (calm : Calm s t) (sprouts : Sprouts t u e) : Sprouts s u e := by
  obtain ⟨tasks, below⟩ := sprouts
  rw [calm.scheduled, calm.length] at tasks
  rw [calm.length] at below
  exact ⟨tasks, below⟩

theorem sprouts_refl (s : Store) (e : Nat) : Sprouts s s e :=
  ⟨⟨[], by simp, by simp⟩, fun b above below => by omega⟩

theorem keys_sprout {renderObject : Object} (keys : List String) (nodup : keys.Nodup) (t : Store) (wf : WellFormed t)
    (found : t.heap[e]? = some el) :
    Ends (keys.forM (updateKey e renderObject)) t (fun _ u => Sprouts t u e) fun _ _ => True := by
  induction keys generalizing t el with
  | nil => exact sprouts_refl t e
  | cons key rest ih =>
    obtain ⟨once, distinct⟩ := List.nodup_cons.mp nodup
    show Ends (updateKey e renderObject key >>= fun _ => rest.forM (updateKey e renderObject)) t _ _
    apply Ends.bind
    unfold updateKey
    by_cases children : key = "children"
    · subst children
      simp only [if_true]
      refine ends_cast ?_ fun _ => trivial
      intro items _
      apply Ends.bind
      apply (newChildren_sprout wf found items).mono
      · intro kids u grown
        show Ends (rest.forM _) (u.modify e (.withChildren (some kids))) _ _
        exact (keys_calm e rest (fun member => absurd member once) _).mono (fun _ _ calm => grown.calm calm)
          fun _ _ _ => trivial
      · exact fun _ _ _ => trivial
    · rw [if_neg children]
      split
      · refine ends_cast ?_ fun _ => trivial
        intro props _
        show Ends (rest.forM _) (t.modify e (.mergeProps props)) _ _
        have merged := calm_mergeProps t e props
        have wf' : WellFormed (t.modify e (.mergeProps props)) :=
          wf.modify_same_shape (fun _ => rfl) (fun _ => rfl) fun _ => rfl
        exact (ih distinct _ wf' (modify_get_self _ found)).mono (fun _ _ later => merged.sprouts later)
          fun _ _ _ => trivial
      · exact ih distinct t wf found

theorem sano_sprouts (wf : WellFormed s) (found : s.heap[e]? = some el) {renderObject : Object} {now : Int}
    (returned : sanoUpdate e renderObject now s = .ok () u) : Sprouts s u e := by
  have ends : Ends (sanoUpdate e renderObject now) s (fun _ u => Sprouts s u e) fun _ _ => True := by
    apply Ends.bind
    apply (keys_sprout renderObject.keys renderObject.nodup s wf found).mono
    · intro _ t sprouts
      exact (setNotifier_calm e now t).mono (fun _ _ calm => sprouts.calm calm) fun _ _ _ => trivial
    · exact fun _ _ _ => trivial
  exact ends.ok returned

theorem fragment_sprouts (wf : WellFormed s) (found : s.heap[e]? = some el) {renderObject : Object} {now : Int}
    (returned : fragmentUpdate e renderObject now s = .ok () u) : Sprouts s u e := by
  have ends : Ends (fragmentUpdate e renderObject now) s (fun _ u => Sprouts s u e) fun _ _ => True := by
    refine ends_cast ?_ fun _ => trivial
    intro items _
    apply Ends.bind
    apply (newChildren_sprout wf found items).mono
    · intro kids t grown
      apply Ends.bind
      show Ends _ (t.modify e (.withChildren (some kids))) _ _
      generalize t.modify e (.withChildren (some kids)) = v at grown
      apply Ends.bind
      apply (read_ends e v).mono
      · rintro cell _ ⟨rfl, _⟩
        split
        · exact Ends.pure grown
        · rename_i holder _
          apply Ends.bind
          apply (read_ends holder v).mono
          · rintro parent _ ⟨rfl, _⟩
            split
            · apply Ends.bind
              apply (fillSlot_calm e holder cell.tag v).mono
              · intro _ x filled
                exact (setNotifier_calm holder now x).mono (fun _ _ calm => grown.calm (filled.trans calm))
                  fun _ _ _ => trivial
              · exact fun _ _ _ => trivial
            · exact Ends.pure grown
          · exact fun _ _ _ => trivial
      · exact fun _ _ _ => trivial
    · exact fun _ _ _ => trivial
  exact ends.ok returned

theorem update_sprouts (wf : WellFormed s) (found : s.heap[e]? = some el) {renderObject : Object} {now : Int}
    (returned : update e renderObject now s = .ok () u) : Sprouts s u e := by
  rw [update_read found] at returned
  split at returned
  · exact fragment_sprouts wf found returned
  · exact sano_sprouts wf found returned

def repainter (e : Nat) (el : Element) : Nat := if el.kind = .fragment then el.parent.getD e else e

def Signalled (s : Store) (x : Nat) (now : Int) : Prop :=
  ∃ b ∈ s.builders, b.element = x ∧ (b.dirty = true ∨ s.heap[x]?.map Element.notifier ≠ some now)

theorem update_notifies (wf : WellFormed s) (found : s.heap[e]? = some el) {renderObject : Object} {now : Int}
    (returned : update e renderObject now s = .ok () u) :
    ∃ change t v, Edited s t e el change ∧ Repainted t v ∧ v.builders = s.builders ∧
      v.heap[repainter e el]?.map Element.notifier = s.heap[repainter e el]?.map Element.notifier ∧
      u = v.notify (repainter e el) now := by
  rw [update_read found] at returned
  by_cases fragment : el.kind = .fragment
  · rw [if_pos fragment] at returned
    obtain ⟨change, t, holder, kids, _, edited, owner, _, rfl⟩ :=
      (fragmentUpdate_ends wf found fragment renderObject now).ok returned
    have lower := (wf.sound e el found).parent holder owner
    have bound : holder < s.heap.length := Nat.lt_trans lower (List.getElem?_eq_some_iff.mp found).1
    have same : repainter e el = holder := by simp [repainter, fragment, owner]
    rw [same]
    refine ⟨change, t, t.fill holder el.tag kids.head?, edited, .fill t holder el.tag _, ?_, ?_, rfl⟩
    · unfold Store.fill
      split <;> exact edited.builders
    · rw [← edited.others holder bound (by omega)]
      unfold Store.fill
      split
      · rw [modify_get, if_pos rfl, Option.map_map]
        rfl
      · rfl
  · rw [if_neg fragment] at returned
    obtain ⟨change, t, _, edited, rfl⟩ := (sanoUpdate_ends wf found renderObject now).ok returned
    obtain ⟨kids, cell, _⟩ := edited.cell
    have same : repainter e el = e := by simp [repainter, fragment]
    rw [same]
    exact ⟨change, t, t, edited, .refl t, edited.builders, by rw [cell, found]; rfl, rfl⟩

theorem update_marks (wf : WellFormed s) (found : s.heap[e]? = some el) {renderObject : Object} {now : Int}
    (returned : update e renderObject now s = .ok () u) : Marks s u := by
  obtain ⟨_, t, v, _, _, builders, _, rfl⟩ := update_notifies wf found returned
  exact (marks_of_eq builders).trans (marks_notify v _ now)

theorem update_signals (wf : WellFormed s) (found : s.heap[e]? = some el) {renderObject : Object} {now : Int}
    (returned : update e renderObject now s = .ok () u) (signalled : Signalled s (repainter e el) now) :
    ∃ b ∈ u.builders, b.dirty = true := by
  obtain ⟨_, t, v, _, _, builders, notifier, rfl⟩ := update_notifies wf found returned
  obtain ⟨b, member, here, dirty⟩ := signalled
  rw [← builders] at member
  unfold Store.notify
  split
  · rename_i stale
    rw [notifier] at stale
    exact ⟨b, member, dirty.resolve_right fun fresh => fresh stale⟩
  · exact ⟨_, List.mem_map_of_mem member, by simp [here]⟩

/-- An element leaves a tree only below a child of the updated element. -/
theorem Edited.leaves {change : Change} (edited : Edited s t e el change) (found : s.heap[e]? = some el)
    {root a : Nat} (inTree : InTree s.heap root a) :
    InTree t.heap root a ∨ ∃ c ∈ el.children.getD [], InTree s.heap c a := by
  obtain ⟨path, reached⟩ := inTree
  induction path using List.reverseRecOn generalizing a with
  | nil =>
    cases reached
    exact .inl ⟨[], rfl⟩
  | append_singleton path step ih =>
    obtain ⟨b, owner, earlier, held, next⟩ := follow_last reached
    have member := next_mem next
    rcases ih earlier with kept | ⟨c, child, below⟩
    · by_cases same : b = e
      · subst same
        cases Option.some.inj (found.symm.trans held)
        obtain ⟨kids, cell, _⟩ := edited.cell
        rcases List.mem_append.mp member with child | fragment
        · exact .inr ⟨a, child, [], rfl⟩
        · exact .inl (inTree_link kept cell (List.mem_append_right _ fragment))
      · have bound : b < s.heap.length := (List.getElem?_eq_some_iff.mp held).1
        exact .inl (inTree_link kept ((edited.others b bound same).trans held) member)
    · exact .inr ⟨c, child, inTree_link below held member⟩

theorem update_leaves (wf : WellFormed s) (found : s.heap[e]? = some el) {renderObject : Object} {now : Int}
    (returned : update e renderObject now s = .ok () u) {root a : Nat} (inTree : InTree s.heap root a) :
    InTree u.heap root a ∨ ∃ c ∈ el.children.getD [], InTree s.heap c a := by
  obtain ⟨change, t, v, edited, repainted, _, _, rfl⟩ := update_notifies wf found returned
  rcases edited.leaves found inTree with kept | below
  · exact .inl ((repainted.keeps 0).trans ((Repainted.notify v _ now).keeps 0) |>.inTree kept)
  · exact .inr below

end Updates

end Sano.Render
