import Sano.Render.Element

namespace Sano.Render

inductive Doc where
  | node (id tag : String) (props : Object) (events : Option (List String))
      (children : Option (List Doc)) (slot : Option Doc)

instance : Inhabited Doc := ⟨.node "" "" ∅ none none none⟩

def Doc.children : Doc → Option (List Doc)
  | .node _ _ _ _ children _ => children

def Doc.withSlot (slot : Option Doc) : Doc → Doc
  | .node id tag props events children _ => .node id tag props events children slot

section Payload

variable (docOf : Object → Option Doc)

def readNode (renderObject : Object) (slot : Option Doc) : Option Doc := do
  let id ← (renderObject.field "id").asString
  let tag ← (renderObject.field "tag").asString
  let props ← (renderObject.field "props").asMapOrNull
  let events ← (renderObject.field "events").asStringsOrNull
  let items ← (renderObject.field "children").asListOrNull
  match items with
  | none => some (.node id tag (props.getD ∅) events none slot)
  | some items =>
    let children ← items.mapM fun item => item.asMap.bind docOf
    some (.node id tag (props.getD ∅) events (some children) slot)

def readSlot (renderObject : Object) : Option (Option Doc) :=
  if renderObject.containsKey "floating-action-button-fragment" then do
    let object ← (renderObject.field "floating-action-button-fragment").asMap
    let slot ← readNode docOf object none
    match slot.children with
    | some [] => none
    | _ => some (some slot)
  else some none

def readStep (renderObject : Object) : Option Doc := do
  let tag ← (renderObject.field "tag").asString
  if tag = "scaffold" then
    let slot ← readSlot docOf renderObject
    readNode docOf renderObject slot
  else readNode docOf renderObject none

end Payload

def docOf : Object → Option Doc := Recursion.fix readStep none Object.depth

def docsOf (items : List Json) : Option (List Doc) := items.mapM fun item => item.asMap.bind docOf

structure Change where
  children : Option (List Doc) := none
  props : Option Object := none

def Change.apply (change : Change) : Doc → Doc
  | .node id tag props events children slot =>
    .node id tag ((change.props.map props.addAll).getD props) events
      (match change.children with | some docs => some docs | none => children) slot

theorem Change.apply_node (change : Change) (id tag : String) (props : Object) (events : Option (List String))
    (children : Option (List Doc)) (slot : Option Doc) :
    change.apply (.node id tag props events children slot) =
      .node id tag ((change.props.map props.addAll).getD props) events (change.children.or children) slot := by
  cases asked : change.children <;> simp [Change.apply, asked]

@[simp]
theorem Change.apply_none (d : Doc) : ({} : Change).apply d = d := by
  cases d
  rfl

def Element.links (el : Element) : List Nat := el.children.getD [] ++ el.fragment.toList

/-- Reads one element. Children and fragments are allocated after their parent,
    so the guard is true in every heap the program builds. -/
def docStep (heap : List Element) (patch : Nat → Change) (doc : Nat → Doc) (a : Nat) : Doc :=
  match heap[a]? with
  | none => default
  | some el =>
    let below := fun b => if a < b then doc b else default
    (patch a).apply (.node el.id el.tag el.props el.events (el.children.map (List.map below))
      (el.fragment.map below))

def docWith (heap : List Element) (patch : Nat → Change) : Nat → Doc :=
  Recursion.fix (docStep heap patch) default (fun a => heap.length - a)

def doc (heap : List Element) : Nat → Doc := docWith heap fun _ => {}

inductive Step where
  | child (index : Nat)
  | slot

def Element.next (el : Element) : Step → Option Nat
  | .child index => (el.children.getD [])[index]?
  | .slot => el.fragment

def follow (heap : List Element) : Nat → List Step → Option Nat
  | a, [] => some a
  | a, step :: rest => (heap[a]?.bind fun el => el.next step).bind fun b => follow heap b rest

def InTree (heap : List Element) (root a : Nat) : Prop := ∃ path, follow heap root path = some a

def Doc.modifyAt (change : Doc → Doc) : List Step → Doc → Doc
  | [], d => change d
  | .child index :: rest, .node id tag props events children slot =>
    .node id tag props events (children.map fun docs => docs.modify index (modifyAt change rest)) slot
  | .slot :: rest, .node id tag props events children slot =>
    .node id tag props events children (slot.map (modifyAt change rest))

theorem optionMapM_congr {α β : Type} {f g : α → Option β} {items : List α}
    (same : ∀ item ∈ items, f item = g item) : items.mapM f = items.mapM g := by
  induction items with
  | nil => rfl
  | cons head rest ih =>
    rw [List.mapM_cons, List.mapM_cons, same head (by simp), ih fun item member => same item (by simp [member])]

theorem readNode_congr {f g : Object → Option Doc} {renderObject : Object} (slot : Option Doc)
    (same : ∀ below : Object, below.depth < renderObject.depth → f below = g below) :
    readNode f renderObject slot = readNode g renderObject slot := by
  unfold readNode
  cases held : (renderObject.field "children").asListOrNull with
  | none => rfl
  | some list =>
    cases list with
    | none => rfl
    | some items =>
      have both : items.mapM (fun item => item.asMap.bind f) = items.mapM (fun item => item.asMap.bind g) := by
        apply optionMapM_congr
        intro item member
        cases object : item.asMap with
        | none => rfl
        | some below => exact same below (item_depth (asList_of_asListOrNull held) member object)
      simp only [Option.bind_eq_bind, Option.bind_some, both]

theorem readNode_slot (docOf : Object → Option Doc) (renderObject : Object) (slot : Option Doc) :
    readNode docOf renderObject slot = (readNode docOf renderObject none).map (.withSlot slot) := by
  unfold readNode
  cases (renderObject.field "id").asString <;> try rfl
  cases (renderObject.field "tag").asString <;> try rfl
  cases (renderObject.field "props").asMapOrNull <;> try rfl
  cases (renderObject.field "events").asStringsOrNull <;> try rfl
  cases (renderObject.field "children").asListOrNull with
  | none => rfl
  | some items =>
    cases items with
    | none => rfl
    | some items =>
      cases docs : items.mapM fun item => item.asMap.bind docOf <;> simp [docs, Doc.withSlot]

theorem readStep_local : Recursion.Local readStep Object.depth := by
  intro f g renderObject same
  have slot : readSlot f renderObject = readSlot g renderObject := by
    unfold readSlot
    cases object : (renderObject.field "floating-action-button-fragment").asMap with
    | none => rfl
    | some below =>
      have lower : below.depth < renderObject.depth :=
        Nat.lt_of_lt_of_le (asMap_depth object) (field_depth renderObject _)
      simp only [Option.bind_eq_bind, Option.bind_some, readNode_congr none fun deeper small => same deeper (Nat.lt_trans small lower)]
  simp only [readStep, slot, readNode_congr _ same]

theorem docOf_eq (renderObject : Object) : docOf renderObject = readStep docOf renderObject :=
  Recursion.fix_eq readStep_local _ _

theorem docStep_local (heap : List Element) (patch : Nat → Change) :
    Recursion.Local (docStep heap patch) (fun a => heap.length - a) := by
  intro f g a same
  unfold docStep
  cases found : heap[a]? with
  | none => rfl
  | some el =>
    have bound : a < heap.length := (List.getElem?_eq_some_iff.mp found).1
    have below : (fun b => if a < b then f b else default) = fun b => if a < b then g b else default := by
      funext b
      by_cases later : a < b
      · simp only [later, if_true]
        exact same b (Nat.sub_lt_sub_left bound later)
      · simp only [later, if_false]
    simp only [below]

theorem docWith_eq (heap : List Element) (patch : Nat → Change) (a : Nat) :
    docWith heap patch a = docStep heap patch (docWith heap patch) a :=
  Recursion.fix_eq (docStep_local heap patch) _ _

def Linked (heap : List Element) : Prop :=
  ∀ a el, heap[a]? = some el → ∀ b ∈ el.links, a < b ∧ b < heap.length

theorem next_mem {el : Element} {step : Step} {b : Nat} (next : el.next step = some b) : b ∈ el.links := by
  cases step with
  | child index => exact List.mem_append_left _ (List.mem_of_getElem? next)
  | slot =>
    refine List.mem_append_right _ ?_
    simpa [Element.next] using next

theorem children_congr {el : Element} {f g : Nat → Doc}
    (same : ∀ index b, el.next (.child index) = some b → f b = g b) :
    el.children.map (List.map f) = el.children.map (List.map g) := by
  cases kids : el.children with
  | none => rfl
  | some kids =>
    refine congrArg some (List.map_congr_left fun b member => ?_)
    obtain ⟨index, inside, rfl⟩ := List.getElem_of_mem member
    exact same index _ (by simp [Element.next, *])

theorem fragment_congr {el : Element} {f g : Nat → Doc} (same : ∀ b, el.next .slot = some b → f b = g b) :
    el.fragment.map f = el.fragment.map g := by
  cases fragment : el.fragment with
  | none => rfl
  | some b => exact congrArg some (same b fragment)

theorem docWith_node {heap : List Element} {a : Nat} {el : Element} (patch : Nat → Change)
    (linked : Linked heap) (found : heap[a]? = some el) :
    docWith heap patch a = (patch a).apply (.node el.id el.tag el.props el.events
      (el.children.map (List.map (docWith heap patch))) (el.fragment.map (docWith heap patch))) := by
  have below (step : Step) (b : Nat) (next : el.next step = some b) :
      (if a < b then docWith heap patch b else default) = docWith heap patch b :=
    if_pos (linked a el found b (next_mem next)).1
  rw [docWith_eq]
  simp only [docStep, found]
  rw [children_congr fun index => below (.child index), fragment_congr (below .slot)]

theorem doc_node {heap : List Element} {a : Nat} {el : Element} (linked : Linked heap)
    (found : heap[a]? = some el) :
    doc heap a = .node el.id el.tag el.props el.events (el.children.map (List.map (doc heap)))
      (el.fragment.map (doc heap)) := by
  have node := docWith_node (fun _ => {}) linked found
  rwa [Change.apply_none] at node

structure Element.SameFace (el' el : Element) : Prop where
  kind : el'.kind = el.kind
  id : el'.id = el.id
  tag : el'.tag = el.tag
  props : el'.props = el.props
  events : el'.events = el.events
  parent : el'.parent = el.parent
  children : el'.children = el.children
  fragment : el'.fragment = el.fragment

theorem Element.SameFace.refl (el : Element) : el.SameFace el := ⟨rfl, rfl, rfl, rfl, rfl, rfl, rfl, rfl⟩

theorem Element.SameFace.symm {first second : Element} (same : first.SameFace second) : second.SameFace first :=
  ⟨same.kind.symm, same.id.symm, same.tag.symm, same.props.symm, same.events.symm, same.parent.symm,
    same.children.symm, same.fragment.symm⟩

theorem Element.SameFace.trans {first second third : Element} (left : first.SameFace second)
    (right : second.SameFace third) : first.SameFace third :=
  ⟨left.kind.trans right.kind, left.id.trans right.id, left.tag.trans right.tag, left.props.trans right.props,
    left.events.trans right.events, left.parent.trans right.parent, left.children.trans right.children,
    left.fragment.trans right.fragment⟩

def SameFrom (a : Nat) (heap heap' : List Element) : Prop :=
  ∀ (b : Nat) (el : Element), a ≤ b → heap[b]? = some el → ∃ el', heap'[b]? = some el' ∧ el'.SameFace el

/-- A document depends only on the elements from its own address upwards. -/
theorem docWith_frame {heap heap' : List Element} {patch patch' : Nat → Change} (linked : Linked heap)
    (linked' : Linked heap') (a : Nat) (bound : a < heap.length)
    (patches : ∀ b, a ≤ b → b < heap.length → patch' b = patch b) (cells : SameFrom a heap heap') :
    docWith heap' patch' a = docWith heap patch a := by
  generalize distance : heap.length - a = n
  induction n using Nat.strongRecOn generalizing a with
  | ind n ih =>
    obtain ⟨el, found⟩ : ∃ el, heap[a]? = some el := ⟨heap[a], List.getElem?_eq_getElem bound⟩
    obtain ⟨el', found', same⟩ := cells a el (Nat.le_refl _) found
    have below (step : Step) (b : Nat) (next : el.next step = some b) :
        docWith heap' patch' b = docWith heap patch b := by
      obtain ⟨later, inside⟩ := linked a el found b (next_mem next)
      have above : ∀ c, b ≤ c → a ≤ c := fun c le => Nat.le_trans (Nat.le_of_lt later) le
      exact ih (heap.length - b) (by omega) b inside (fun c le => patches c (above c le))
        (fun c el le => cells c el (above c le)) rfl
    rw [docWith_node patch linked found, docWith_node patch' linked' found', patches a (Nat.le_refl _) bound,
      same.id, same.tag, same.props, same.events, same.children, same.fragment,
      children_congr fun index => below (.child index), fragment_congr (below .slot)]

end Sano.Render
