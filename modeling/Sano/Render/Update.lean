import Mathlib.Logic.Function.Basic
import Sano.Render.Construction

namespace Sano.Render

section Changes

def Change.merge (change : Change) (props : Object) : Object := (change.props.map props.addAll).getD props

def childrenOn (renderObject : Object) (keys : List String) : Option (Option (List Doc)) :=
  if "children" ∈ keys then ((renderObject.field "children").asList.bind docsOf).map some else some none

def propsOn (renderObject : Object) (keys : List String) : Option (Option Object) :=
  if "props" ∈ keys then (renderObject.field "props").asMap.map some else some none

def changeOn (renderObject : Object) (keys : List String) : Option Change :=
  (childrenOn renderObject keys).bind fun children =>
    (propsOn renderObject keys).map fun props => { children, props }

def slotChange (tag : String) (renderObject : Object) : Option Change := do
  let items ← (renderObject.field "children").asList
  let docs ← docsOf items
  if tag = "floating-action-button-fragment" ∧ docs.isEmpty then none
  else some { children := some docs }

def changeOf (el : Element) (renderObject : Object) : Option Change :=
  if el.kind = .fragment then slotChange el.tag renderObject
  else changeOn renderObject renderObject.keys

end Changes

section Edits

def Element.edited (children : Option (List Nat)) (props : Object) (el : Element) : Element :=
  { el with children := children, props := props }

/-- The store after the body of an update of `e`, before the repaint request:
    only the children and the props of `e` differ, and new children are new objects. -/
structure Edited (s t : Store) (e : Nat) (el : Element) (change : Change) : Prop where
  wf : WellFormed t
  longer : s.heap.length ≤ t.heap.length
  tasks : s.scheduled <+: t.scheduled
  fresh : ∀ b ∈ t.scheduled, b ∈ s.scheduled ∨ s.heap.length ≤ b
  builders : t.builders = s.builders
  others : ∀ a, a < s.heap.length → a ≠ e → t.heap[a]? = s.heap[a]?
  cell : ∃ kids, t.heap[e]? = some (el.edited kids (change.merge el.props)) ∧
    match change.children with
    | none => kids = el.children
    | some docs => ∃ list, kids = some list ∧ list.map (doc t.heap) = docs ∧
        ∀ k ∈ list, s.heap.length ≤ k ∧ k < t.heap.length

variable {s t u : Store} {e : Nat} {el : Element} {change : Change}

theorem Edited.refl (wf : WellFormed s) (found : s.heap[e]? = some el) : Edited s s e el {} :=
  ⟨wf, Nat.le_refl _, List.prefix_refl _, fun _ task => .inl task, rfl, fun _ _ _ => rfl,
    el.children, found, rfl⟩

theorem Edited.grow (edited : Edited s t e el change) (grown : Grown t u) (wf : WellFormed u) :
    Edited s u e el change where
  wf := wf
  longer := Nat.le_trans edited.longer grown.longer
  tasks := edited.tasks.trans grown.tasks
  fresh b task := by
    rcases grown.fresh b task with old | new
    · exact edited.fresh b old
    · exact .inr (Nat.le_trans edited.longer new)
  builders := grown.builders.trans edited.builders
  others a bound other :=
    (grown.cells a (Nat.lt_of_lt_of_le bound edited.longer)).trans (edited.others a bound other)
  cell := by
    obtain ⟨kids, found, shown⟩ := edited.cell
    refine ⟨kids, grown.found found, ?_⟩
    cases asked : change.children with
    | none => simpa only [asked] using shown
    | some docs =>
      simp only [asked] at shown
      obtain ⟨list, held, same, new⟩ := shown
      refine ⟨list, held, ?_, fun k member => ⟨(new k member).1, Nat.lt_of_lt_of_le (new k member).2 grown.longer⟩⟩
      rw [← same]
      exact List.map_congr_left fun k member => grown.doc edited.wf wf (new k member).2

theorem Edited.children {kids : List Nat} (edited : Edited s t e el change) (bound : e < s.heap.length)
    (old : s.heap[e]? = some el) (wf : WellFormed s) (all : BuiltAll t u e kids) :
    Edited s (u.modify e (.withChildren (some kids))) e el
      { change with children := some (kids.map (doc u.heap)) } := by
  have grown := edited.grow all.grown all.wf
  obtain ⟨before, found, _⟩ := grown.cell
  have inside (k : Nat) (member : k ∈ kids) : s.heap.length ≤ k ∧ k < u.heap.length := by
    obtain ⟨new, task, _⟩ := all.each k member
    exact ⟨Nat.le_trans edited.longer new, all.wf.scheduled k task⟩
  have wf' : WellFormed (u.modify e (.withChildren (some kids))) := by
    refine all.wf.modify (fun _ => rfl) (fun _ => rfl) fun held here => ?_
    cases Option.some.inj (found.symm.trans here)
    have sound := all.wf.sound e _ found
    have slot (b : Nat) (member : b ∈ el.fragment.toList) : b < s.heap.length :=
      (wf.linked e el old b (List.mem_append_right _ member)).2
    refine ⟨fun b member => ?_, ?_, sound.parent, sound.orphan, sound.holder⟩
    · rcases List.mem_append.mp member with child | fragment
      · obtain ⟨_, task, cell⟩ := all.each b child
        have new := (inside b child).1
        exact ⟨by omega, task, cell⟩
      · exact sound.links b (List.mem_append_right _ fragment)
    · refine all.nodup.append (sound.nodup.sublist (List.sublist_append_right _ _)) ?_
      intro b child fragment
      have new := (inside b child).1
      have kept := slot b fragment
      omega
  refine ⟨wf', by simpa using grown.longer, grown.tasks, grown.fresh, grown.builders, ?_, some kids, ?_, ?_⟩
  · intro a inside other
    exact (modify_get_other _ (Ne.symm other)).trans (grown.others a inside other)
  · exact modify_get_self _ found
  · refine ⟨kids, rfl, ?_, fun k member => by simpa using inside k member⟩
    apply List.map_congr_left
    intro k member
    obtain ⟨new, within⟩ := inside k member
    exact modify_doc all.wf wf' (by omega) within

theorem Edited.props (edited : Edited s t e el change) (bound : e < s.heap.length)
    (once : change.props = none) (props : Object) :
    Edited s (t.modify e (.mergeProps props)) e el { change with props := some props } := by
  obtain ⟨kids, found, shown⟩ := edited.cell
  have wf' : WellFormed (t.modify e (.mergeProps props)) :=
    edited.wf.modify_same_shape (fun _ => rfl) (fun _ => rfl) fun _ => rfl
  refine ⟨wf', by simpa using edited.longer, edited.tasks, edited.fresh, edited.builders, ?_, kids, ?_, ?_⟩
  · intro a inside other
    exact (modify_get_other _ (Ne.symm other)).trans (edited.others a inside other)
  · rw [modify_get_self _ found]
    simp [Element.mergeProps, Element.edited, Change.merge, once]
  · cases asked : change.children with
    | none => simpa only [asked] using shown
    | some docs =>
      simp only [asked] at shown
      obtain ⟨list, held, same, new⟩ := shown
      refine ⟨list, held, ?_, fun k member => by simpa using new k member⟩
      rw [← same]
      apply List.map_congr_left
      intro k member
      obtain ⟨young, within⟩ := new k member
      exact modify_doc edited.wf wf' (by omega) within

end Edits

section Keys

def Change.followedBy (first next : Change) : Change :=
  { children := next.children.or first.children, props := next.props.or first.props }

theorem changeOn_children (renderObject : Object) {rest : List String} (once : "children" ∉ rest) :
    changeOn renderObject ("children" :: rest) =
      ((renderObject.field "children").asList.bind docsOf).bind fun docs =>
        (changeOn renderObject rest).map fun change => { change with children := some docs } := by
  have props : propsOn renderObject ("children" :: rest) = propsOn renderObject rest := by simp [propsOn]
  simp only [changeOn, props, childrenOn, List.mem_cons, true_or, if_true, once, if_false]
  cases (renderObject.field "children").asList.bind docsOf <;> simp [Function.comp_def]

theorem changeOn_props (renderObject : Object) {rest : List String} (once : "props" ∉ rest) :
    changeOn renderObject ("props" :: rest) =
      (renderObject.field "props").asMap.bind fun props =>
        (changeOn renderObject rest).map fun change => { change with props := some props } := by
  have children : childrenOn renderObject ("props" :: rest) = childrenOn renderObject rest := by
    simp [childrenOn]
  simp only [changeOn, children, propsOn, List.mem_cons, true_or, if_true, once, if_false]
  cases childrenOn renderObject rest <;> cases (renderObject.field "props").asMap <;> simp

theorem changeOn_other (renderObject : Object) {key : String} (rest : List String)
    (children : key ≠ "children") (props : key ≠ "props") :
    changeOn renderObject (key :: rest) = changeOn renderObject rest := by
  simp [changeOn, childrenOn, propsOn, Ne.symm children, Ne.symm props]

theorem changeOn_children_absent {renderObject : Object} {keys : List String} {change : Change}
    (absent : "children" ∉ keys) (asked : changeOn renderObject keys = some change) :
    change.children = none := by
  simp only [changeOn, childrenOn, absent, if_false, Option.bind_some] at asked
  obtain ⟨props, _, same⟩ := Option.map_eq_some_iff.mp asked
  cases same
  rfl

theorem changeOn_props_absent {renderObject : Object} {keys : List String} {change : Change}
    (absent : "props" ∉ keys) (asked : changeOn renderObject keys = some change) :
    change.props = none := by
  simp only [changeOn, propsOn, absent, if_false] at asked
  obtain ⟨children, _, same⟩ := Option.bind_eq_some_iff.mp asked
  cases same
  rfl

variable {s : Store} {e : Nat} {el : Element}

theorem keys_ends (wf : WellFormed s) (found : s.heap[e]? = some el) (renderObject : Object)
    (keys : List String) (nodup : keys.Nodup) (t : Store) (change : Change)
    (edited : Edited s t e el change) (free : "props" ∈ keys → change.props = none) :
    Ends (keys.forM (updateKey e renderObject)) t
      (fun _ u => ∃ more, changeOn renderObject keys = some more ∧ Edited s u e el (change.followedBy more))
      (fun _ u => changeOn renderObject keys = none ∧ ∃ reached, Edited s u e el reached) := by
  have bound : e < s.heap.length := (List.getElem?_eq_some_iff.mp found).1
  induction keys generalizing t change with
  | nil =>
    refine ⟨{}, rfl, ?_⟩
    simpa [Change.followedBy] using edited
  | cons key rest ih =>
    obtain ⟨once, distinct⟩ := List.nodup_cons.mp nodup
    show Ends (updateKey e renderObject key >>= fun _ => rest.forM (updateKey e renderObject)) t _ _
    apply Ends.bind
    unfold updateKey
    by_cases children : key = "children"
    · subst children
      simp only [if_true]
      apply ends_cast
      case absent =>
        intro absent
        refine ⟨by simp [changeOn_children renderObject once, absent], change, edited⟩
      intro items cast
      apply Ends.bind
      apply (items_ends items (fun _ _ object _ => createNodeElement_creates object) e t edited.wf
        (Nat.lt_of_lt_of_le bound edited.longer)).mono
      · rintro kids u ⟨all, docs⟩
        show Ends (rest.forM _) (u.modify e (.withChildren (some kids))) _ _
        apply (ih distinct _ _ (edited.children bound found wf all) fun member => free (by simp [member])).mono
        · rintro _ v ⟨more, asked, edited'⟩
          have absent := changeOn_children_absent once asked
          refine ⟨{ more with children := some (kids.map (doc u.heap)) }, ?_, ?_⟩
          · simp [changeOn_children renderObject once, cast, docs, asked]
          · simpa [Change.followedBy, absent] using edited'
        · rintro error v ⟨rejected, reached⟩
          exact ⟨by simp [changeOn_children renderObject once, cast, docs, rejected], reached⟩
      · rintro error u ⟨grown, wf', docs⟩
        exact ⟨by simp [changeOn_children renderObject once, cast, docs], change, edited.grow grown wf'⟩
    · by_cases props : key = "props"
      · subst props
        simp only [children, if_false, if_true]
        apply ends_cast
        case absent =>
          intro absent
          exact ⟨by simp [changeOn_props renderObject once, absent], change, edited⟩
        intro object cast
        show Ends (rest.forM _) (t.modify e (.mergeProps object)) _ _
        have unset := free (by simp)
        apply (ih distinct _ _ (edited.props bound unset object) fun member => absurd member once).mono
        · rintro _ v ⟨more, asked, edited'⟩
          have absent := changeOn_props_absent once asked
          refine ⟨{ more with props := some object }, ?_, ?_⟩
          · simp [changeOn_props renderObject once, cast, asked]
          · simpa [Change.followedBy, absent] using edited'
        · rintro error v ⟨rejected, reached⟩
          exact ⟨by simp [changeOn_props renderObject once, cast, rejected], reached⟩
      · simp only [children, props, if_false]
        apply Ends.pure
        rw [changeOn_other renderObject rest children props]
        exact ih distinct t change edited fun member => free (by simp [member])

end Keys

section Notification

def Store.notify (s : Store) (a : Nat) (value : Int) : Store :=
  if (s.heap[a]?.map Element.notifier) = some value then s else (s.modify a (.withNotifier value)).mark a

theorem setNotifier_eq {s : Store} {a : Nat} {el : Element} (found : s.heap[a]? = some el) (value : Int) :
    setNotifier a value s = .ok () (s.notify a value) := by
  simp only [setNotifier, found, Store.notify, Option.map_some, Option.some.injEq]
  split <;> rfl

def Store.fill (s : Store) (holder : Nat) (tag : String) (first : Option Nat) : Store :=
  if tag = "floating-action-button-fragment" then s.modify holder (.withFloatingActionButton first) else s

structure Repainted (s t : Store) : Prop where
  cells : ∀ (a : Nat) (el : Element), s.heap[a]? = some el → ∃ el', t.heap[a]? = some el' ∧ el'.SameFace el
  length : t.heap.length = s.heap.length
  scheduled : t.scheduled = s.scheduled
  builders : t.builders.map Builder.element = s.builders.map Builder.element

theorem Repainted.refl (s : Store) : Repainted s s :=
  ⟨fun _ el found => ⟨el, found, .refl el⟩, rfl, rfl, rfl⟩

theorem Repainted.trans {s t u : Store} (first : Repainted s t) (second : Repainted t u) : Repainted s u where
  cells a el found := by
    obtain ⟨el', found', same⟩ := first.cells a el found
    obtain ⟨el'', found'', same'⟩ := second.cells a el' found'
    exact ⟨el'', found'', same'.trans same⟩
  length := second.length.trans first.length
  scheduled := second.scheduled.trans first.scheduled
  builders := second.builders.trans first.builders

theorem Repainted.wf {s t : Store} (repainted : Repainted s t) (wf : WellFormed s) : WellFormed t where
  sound a el found := by
    have bound : a < s.heap.length := by
      rw [← repainted.length]
      exact (List.getElem?_eq_some_iff.mp found).1
    obtain ⟨el', found', same⟩ := repainted.cells a s.heap[a] (List.getElem?_eq_getElem bound)
    cases Option.some.inj (found.symm.trans found')
    have sound := wf.sound a _ (List.getElem?_eq_getElem bound)
    have links : el.links = (s.heap[a]).links := by simp [Element.links, same.children, same.fragment]
    refine (sound.same_shape links same.parent same.kind).mono (fun b c held => ?_) ?_
    · obtain ⟨c', held', same'⟩ := repainted.cells b c held
      exact ⟨c', held', same'.parent, same'.kind⟩
    · rw [repainted.scheduled]
      exact fun _ task => task
  scheduled b task := by
    rw [repainted.scheduled] at task
    rw [repainted.length]
    exact wf.scheduled b task

theorem Repainted.modify (s : Store) (a : Nat) (change : Element → Element)
    (same : ∀ el, (change el).SameFace el) : Repainted s (s.modify a change) where
  cells b el found := by
    rw [modify_get, found]
    split
    · exact ⟨change el, rfl, same el⟩
    · exact ⟨el, rfl, .refl el⟩
  length := modify_heap_length s a change
  scheduled := rfl
  builders := rfl

theorem Repainted.mark (s : Store) (a : Nat) : Repainted s (s.mark a) where
  cells _ el found := ⟨el, found, .refl el⟩
  length := rfl
  scheduled := rfl
  builders := by
    simp only [Store.mark, List.map_map]
    apply List.map_congr_left
    intro b _
    simp only [Function.comp]
    split <;> rfl

theorem Repainted.notify (s : Store) (a : Nat) (value : Int) : Repainted s (s.notify a value) := by
  unfold Store.notify
  split
  · exact .refl s
  · exact (Repainted.modify s a (.withNotifier value) fun _ => ⟨rfl, rfl, rfl, rfl, rfl, rfl, rfl, rfl⟩).trans (.mark _ a)

theorem Repainted.fill (s : Store) (holder : Nat) (tag : String) (first : Option Nat) :
    Repainted s (s.fill holder tag first) := by
  unfold Store.fill
  split
  · exact .modify s holder _ fun _ => ⟨rfl, rfl, rfl, rfl, rfl, rfl, rfl, rfl⟩
  · exact .refl s

theorem notify_get_other {s : Store} {a b : Nat} (value : Int) (other : a ≠ b) :
    (s.notify a value).heap[b]? = s.heap[b]? := by
  unfold Store.notify
  split
  · rfl
  · exact modify_get_other _ other

theorem fill_get_other {s : Store} {a b : Nat} (tag : String) (first : Option Nat) (other : a ≠ b) :
    (s.fill a tag first).heap[b]? = s.heap[b]? := by
  unfold Store.fill
  split
  · exact modify_get_other _ other
  · rfl

end Notification

section Outcome

variable {s : Store} {e : Nat} {el : Element}

theorem sanoUpdate_ends (wf : WellFormed s) (found : s.heap[e]? = some el) (renderObject : Object)
    (now : Int) :
    Ends (sanoUpdate e renderObject now) s
      (fun _ u => ∃ change t, changeOn renderObject renderObject.keys = some change ∧
        Edited s t e el change ∧ u = t.notify e now)
      (fun _ t => changeOn renderObject renderObject.keys = none ∧ ∃ reached, Edited s t e el reached) := by
  apply Ends.bind
  apply (keys_ends wf found renderObject _ renderObject.nodup s {} (.refl wf found) fun _ => rfl).mono
  · rintro _ t ⟨change, asked, edited⟩
    have whole : Change.followedBy {} change = change := by simp [Change.followedBy]
    rw [whole] at edited
    obtain ⟨kids, held, _⟩ := edited.cell
    unfold Ends
    rw [setNotifier_eq held]
    exact ⟨change, t, asked, edited, rfl⟩
  · rintro error t rejected
    exact rejected

theorem fillSlot_eq (self holder : Nat) (tag : String) :
    fillSlot self holder tag =
      if tag = "floating-action-button-fragment" then floatingActionButtonBuilder holder self else pure () := by
  by_cases same : tag = "floating-action-button-fragment"
  · simp [fillSlot, slots, same]
  · simp [fillSlot, slots, same, Ne.symm same]

theorem fragmentUpdate_ends (wf : WellFormed s) (found : s.heap[e]? = some el) (fragment : el.kind = .fragment)
    (renderObject : Object) (now : Int) :
    Ends (fragmentUpdate e renderObject now) s
      (fun _ u => ∃ change t holder kids, slotChange el.tag renderObject = some change ∧
        Edited s t e el change ∧ el.parent = some holder ∧
        (t.heap[e]?.map Element.children) = some (some kids) ∧
        u = (t.fill holder el.tag kids.head?).notify holder now)
      (fun _ t => slotChange el.tag renderObject = none ∧ ∃ reached, Edited s t e el reached) := by
  have bound : e < s.heap.length := (List.getElem?_eq_some_iff.mp found).1
  have untouched := Edited.refl wf found
  unfold slotChange
  apply ends_cast
  case absent =>
    intro absent
    exact ⟨by simp [absent], _, untouched⟩
  intro items cast
  apply Ends.bind
  apply (items_ends items (fun _ _ object _ => createNodeElement_creates object) e s wf bound).mono
  case onThrown =>
    rintro error u ⟨grown, wf', docs⟩
    exact ⟨by simp [cast, docs], _, untouched.grow grown wf'⟩
  rintro kids u ⟨all, docs⟩
  have edited := untouched.children bound found wf all
  let t := u.modify e (.withChildren (some kids))
  have cell : t.heap[e]? = some (el.withChildren (some kids)) := modify_get_self _ (all.grown.found found)
  obtain ⟨holder, parent, owner, held, scaffold⟩ := (edited.wf.sound e _ cell).holder fragment
  apply Ends.bind
  show Ends _ t _ _
  apply Ends.bind
  show Ends (read e) t _ _
  unfold Ends
  rw [show read e t = .ok (el.withChildren (some kids)) t by simp [read, cell]]
  simp only [owner]
  show Ends _ t _ _
  apply Ends.bind
  unfold Ends
  rw [show read holder t = .ok parent t by simp [read, t, held]]
  simp only [scaffold, if_true]
  show Ends (fillSlot e holder el.tag >>= fun _ => setNotifier holder now) t _ _
  apply Ends.bind
  rw [fillSlot_eq]
  have shown : (t.heap[e]?.map Element.children) = some (some kids) := by simp [cell, Element.withChildren]
  by_cases slot : el.tag = "floating-action-button-fragment"
  · simp only [slot, if_true, true_and]
    unfold Ends
    rw [floatingActionButtonBuilder_eq cell]
    cases kids with
    | nil =>
      refine ⟨?_, _, edited⟩
      simp [cast, docs]
    | cons first rest =>
      simp only [Element.withChildren, Option.some.injEq, reduceCtorEq, if_false, Option.getD_some, List.head?_cons]
      rw [setNotifier_eq (modify_get_self _ held)]
      refine ⟨_, t, holder, first :: rest, ?_, edited, owner, shown, ?_⟩
      · simp [cast, docs]
      · simp [Store.fill, t]
  · simp only [slot, if_false, false_and]
    apply Ends.pure
    unfold Ends
    rw [setNotifier_eq held]
    refine ⟨_, t, holder, kids, ?_, edited, owner, shown, ?_⟩
    · simp [cast, docs]
    · simp [Store.fill, slot, t]

def Updated (s u : Store) (e : Nat) (el : Element) (change : Change) : Prop :=
  ∃ t, Edited s t e el change ∧ Repainted t u

/-- An update ends normally exactly when its payload asks for a change, and then
    makes that change. On an exception it has made some change of the same kind. -/
theorem update_ends (wf : WellFormed s) (found : s.heap[e]? = some el) (renderObject : Object) (now : Int) :
    Ends (update e renderObject now) s
      (fun _ u => ∃ change, changeOf el renderObject = some change ∧ Updated s u e el change)
      (fun _ u => changeOf el renderObject = none ∧ ∃ reached, Updated s u e el reached) := by
  apply Ends.bind
  unfold Ends
  rw [show read e s = .ok el s by simp [read, found]]
  simp only [changeOf]
  by_cases fragment : el.kind = .fragment
  · simp only [fragment, if_true]
    apply (fragmentUpdate_ends wf found fragment renderObject now).mono
    · rintro _ u ⟨change, t, holder, kids, asked, edited, _, _, rfl⟩
      exact ⟨change, asked, t, edited, (Repainted.fill t holder el.tag _).trans (.notify _ holder now)⟩
    · rintro error t ⟨rejected, reached, edited⟩
      exact ⟨rejected, reached, t, edited, .refl t⟩
  · simp only [fragment, if_false]
    apply (sanoUpdate_ends wf found renderObject now).mono
    · rintro _ u ⟨change, t, asked, edited, rfl⟩
      exact ⟨change, asked, t, edited, .notify t e now⟩
    · rintro error t ⟨rejected, reached, edited⟩
      exact ⟨rejected, reached, t, edited, .refl t⟩

end Outcome

section Documents

variable {s t u : Store} {e : Nat} {el : Element} {change : Change}

theorem Updated.wf (updated : Updated s u e el change) : WellFormed u := by
  obtain ⟨t, edited, repainted⟩ := updated
  exact repainted.wf edited.wf

theorem Repainted.docWith_eq (repainted : Repainted s t) (wf : WellFormed s) (patch : Nat → Change) (a : Nat)
    (bound : a < s.heap.length) : docWith t.heap patch a = docWith s.heap patch a :=
  docWith_frame wf.linked (repainted.wf wf).linked a bound (fun _ _ _ => rfl)
    fun b el _ found => repainted.cells b el found

/-- Reading after the update is reading before it with the change pending. -/
theorem Edited.docWith_eq (edited : Edited s t e el change) (wf : WellFormed s) (found : s.heap[e]? = some el)
    (patch : Nat → Change) (unset : patch e = {}) (old : ∀ b, s.heap.length ≤ b → patch b = {})
    (a : Nat) (bound : a < s.heap.length) :
    docWith t.heap patch a = docWith s.heap (Function.update patch e change) a := by
  generalize distance : s.heap.length - a = n
  induction n using Nat.strongRecOn generalizing a with
  | ind n ih =>
    have below {owner : Element} (held : s.heap[a]? = some owner) (step : Step) (b : Nat)
        (next : owner.next step = some b) :
        docWith t.heap patch b = docWith s.heap (Function.update patch e change) b := by
      obtain ⟨later, inside⟩ := wf.linked a owner held b (next_mem next)
      exact ih (s.heap.length - b) (by omega) b inside rfl
    by_cases here : a = e
    · subst here
      obtain ⟨kids, cell, shown⟩ := edited.cell
      rw [docWith_node patch edited.wf.linked cell, docWith_node _ wf.linked found, unset, Change.apply_none,
        Function.update_self]
      have newKids : kids.map (List.map (docWith t.heap patch)) =
          change.children.or (el.children.map (List.map (docWith s.heap (Function.update patch a change)))) := by
        cases asked : change.children with
        | none =>
          simp only [asked] at shown
          rw [shown]
          exact children_congr fun index => below found (.child index)
        | some docs =>
          simp only [asked] at shown
          obtain ⟨list, rfl, same, new⟩ := shown
          simp only [Option.map_some, Option.some_or, Option.some.injEq, ← same]
          apply List.map_congr_left
          intro k member
          apply docWith_frame edited.wf.linked edited.wf.linked k (new k member).2
          · intro b above _
            exact old b (Nat.le_trans (new k member).1 above)
          · exact fun b held _ cell => ⟨held, cell, .refl held⟩
      simp only [Element.edited, Change.apply_node, Change.merge, fragment_congr (below found .slot)]
      exact congrArg (fun kids => Doc.node _ _ _ _ kids _) newKids
    · obtain ⟨owner, held⟩ : ∃ owner, s.heap[a]? = some owner := ⟨_, List.getElem?_eq_getElem bound⟩
      have cell := (edited.others a bound here).trans held
      rw [docWith_node patch edited.wf.linked cell, docWith_node _ wf.linked held, Function.update_of_ne here,
        children_congr fun index => below held (.child index), fragment_congr (below held .slot)]

theorem Updated.docWith_eq (updated : Updated s u e el change) (wf : WellFormed s) (found : s.heap[e]? = some el)
    (patch : Nat → Change) (unset : patch e = {}) (old : ∀ b, s.heap.length ≤ b → patch b = {})
    (a : Nat) (bound : a < s.heap.length) :
    docWith u.heap patch a = docWith s.heap (Function.update patch e change) a := by
  obtain ⟨t, edited, repainted⟩ := updated
  rw [repainted.docWith_eq edited.wf patch a (Nat.lt_of_lt_of_le bound edited.longer)]
  exact edited.docWith_eq wf found patch unset old a bound

end Documents

end Sano.Render
