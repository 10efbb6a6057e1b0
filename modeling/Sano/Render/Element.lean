import Sano.Base.Recursion
import Sano.Render.Json

namespace Sano.Render

inductive Kind where
  | root
  | element
  | scaffold
  | fragment
deriving DecidableEq

/-- One element object. A child is a `ValueListenableBuilder` that closes over
    its element, so the child list holds the addresses of the elements. The
    source keeps a slot fragment alive only through the registry: `fragment`
    records which one `initSlots` built. -/
structure Element where
  kind : Kind
  id : String
  tag : String
  props : Object
  events : Option (List String)
  parent : Option Nat
  children : Option (List Nat) := some []
  notifier : Int := 1
  floatingActionButton : Option Nat := none
  fragment : Option Nat := none

def Element.withChildren (children : Option (List Nat)) (el : Element) : Element :=
  { el with children := children }

def Element.mergeProps (props : Object) (el : Element) : Element :=
  { el with props := el.props.addAll props }

def Element.withNotifier (value : Int) (el : Element) : Element := { el with notifier := value }

def Element.withFloatingActionButton (widget : Option Nat) (el : Element) : Element :=
  { el with floatingActionButton := widget }

def Element.withFragment (fragment : Nat) (el : Element) : Element :=
  { el with fragment := some fragment }

structure Snapshot where
  children : Option (List Nat)
  props : Object
  floatingActionButton : Option Nat

def Element.snapshot (el : Element) : Snapshot :=
  ⟨el.children, el.props, el.floatingActionButton⟩

/-- A mounted `ValueListenableBuilder`: it listens to the notifier of its
    element and is marked until a frame builds it again. -/
structure Builder where
  element : Nat
  dirty : Bool
  built : Snapshot

/-- `scheduled` lists the registration tasks of all notifiers in creation order. -/
structure Store where
  heap : List Element := []
  scheduled : List Nat := []
  builders : List Builder := []

def Store.modify (s : Store) (a : Nat) (change : Element → Element) : Store :=
  { s with heap := s.heap.modify a change }

def Store.mark (s : Store) (a : Nat) : Store :=
  { s with builders := s.builders.map fun b => if b.element = a then { b with dirty := true } else b }

inductive Error where
  | typeError
  | rangeError
  | nullCheck
  | tooDeep
deriving DecidableEq

abbrev Dart := EStateM Error Store

section Primitives

def cast {α : Type} : Option α → Dart α
  | some value => pure value
  | none => throw .typeError

def read (a : Nat) : Dart Element := fun s =>
  match s.heap[a]? with
  | some el => .ok el s
  | none => .error .nullCheck s

def alloc (el : Element) : Dart Nat := fun s =>
  .ok s.heap.length { s with heap := s.heap ++ [el] }

def modifyElement (a : Nat) (change : Element → Element) : Dart Unit := fun s =>
  .ok () (s.modify a change)

def schedule (a : Nat) : Dart Unit := fun s =>
  .ok () { s with scheduled := s.scheduled ++ [a] }

def setNotifier (a : Nat) (value : Int) : Dart Unit := fun s =>
  match s.heap[a]? with
  | none => .error .nullCheck s
  | some el =>
    if el.notifier = value then .ok () s
    else .ok () ((s.modify a (.withNotifier value)).mark a)

end Primitives

section Constructors

variable (create : Object → Nat → Dart Nat)

def createItem (parent : Nat) (item : Json) : Dart Nat := do
  let object ← cast item.asMap
  create object parent

/-- The constructor of `SanoElement`. The notifier comes last, after the whole
    subtree: tasks are created children first. -/
def sanoElement (kind : Kind) (renderObject : Object) (parent : Option Nat) : Dart Nat := do
  let id ← cast (renderObject.field "id").asString
  let tag ← cast (renderObject.field "tag").asString
  let props ← cast (renderObject.field "props").asMapOrNull
  let events ← cast (renderObject.field "events").asStringsOrNull
  let self ← alloc { kind, id, tag, props := props.getD ∅, events, parent }
  let items ← cast (renderObject.field "children").asListOrNull
  match items with
  | none => modifyElement self (.withChildren none)
  | some items =>
    let children ← items.mapM (createItem create self)
    modifyElement self (.withChildren (some children))
  schedule self
  return self

def floatingActionButtonBuilder (self element : Nat) : Dart Unit := do
  let source ← read element
  match source.children with
  | none => modifyElement self (.withFloatingActionButton none)
  | some [] => throw .rangeError
  | some (first :: _) => modifyElement self (.withFloatingActionButton (some first))

def slots : List (String × (Nat → Nat → Dart Unit)) :=
  [("floating-action-button-fragment", floatingActionButtonBuilder)]

def initSlot (renderObject : Object) (self : Nat) (key : String)
    (build : Nat → Nat → Dart Unit) : Dart Unit := do
  if renderObject.containsKey key then
    let object ← cast (renderObject.field key).asMap
    let element ← sanoElement create .fragment object (some self)
    modifyElement self (.withFragment element)
    build self element

def initSlots (renderObject : Object) (self : Nat) : Dart Unit :=
  slots.forM fun (key, build) => initSlot create renderObject self key build

def scaffoldElement (renderObject : Object) (parent : Nat) : Dart Nat := do
  let self ← sanoElement create .scaffold renderObject (some parent)
  initSlots create renderObject self
  return self

def createStep (renderObject : Object) (parent : Nat) : Dart Nat := do
  let tag ← cast (renderObject.field "tag").asString
  if tag = "scaffold" then scaffoldElement create renderObject parent
  else sanoElement create .element renderObject (some parent)

end Constructors

def createNodeElement : Object → Nat → Dart Nat :=
  Recursion.fix createStep (fun _ => throw .tooDeep) Object.depth

def rootElement (children : Json) (channel : String) : Dart Nat := do
  let _ ← cast children.asMap
  sanoElement createNodeElement .root
    (LinkedMap.ofList [("id", .string channel), ("tag", .string "root"), ("children", .list [children])])
    none

section Updates

def updateKey (self : Nat) (renderObject : Object) (key : String) : Dart Unit :=
  if key = "children" then do
    let items ← cast (renderObject.field "children").asList
    let children ← items.mapM (createItem createNodeElement self)
    modifyElement self (.withChildren (some children))
  else if key = "props" then do
    let props ← cast (renderObject.field "props").asMap
    modifyElement self (.mergeProps props)
  else pure ()

def sanoUpdate (self : Nat) (renderObject : Object) (now : Int) : Dart Unit := do
  renderObject.keys.forM (updateKey self renderObject)
  setNotifier self now

def fillSlot (self holder : Nat) (tag : String) : Dart Unit :=
  match slots.find? (fun slot => slot.1 = tag) with
  | some (_, build) => build holder self
  | none => pure ()

/-- `SlotFragment.update`: props are ignored, the children key is required, and
    the repaint is requested of the parent. -/
def fragmentUpdate (self : Nat) (renderObject : Object) (now : Int) : Dart Unit := do
  let items ← cast (renderObject.field "children").asList
  let children ← items.mapM (createItem createNodeElement self)
  modifyElement self (.withChildren (some children))
  let el ← read self
  match el.parent with
  | none => pure ()
  | some holder =>
    let parent ← read holder
    if parent.kind = .scaffold then
      fillSlot self holder el.tag
      setNotifier holder now

def update (self : Nat) (renderObject : Object) (now : Int) : Dart Unit := do
  let el ← read self
  if el.kind = .fragment then fragmentUpdate self renderObject now
  else sanoUpdate self renderObject now

end Updates

section Recursion

theorem cast_none {α β : Type} (next : α → Dart β) : cast none >>= next = throw Error.typeError := rfl

theorem mapM_congr {α β : Type} {f g : α → Dart β} {items : List α}
    (same : ∀ item ∈ items, f item = g item) : items.mapM f = items.mapM g := by
  induction items with
  | nil => rfl
  | cons head rest ih =>
    rw [List.mapM_cons, List.mapM_cons, same head (by simp), ih fun item member => same item (by simp [member])]

theorem sanoElement_congr {f g : Object → Nat → Dart Nat} (kind : Kind) {renderObject : Object}
    (parent : Option Nat) (same : ∀ below : Object, below.depth < renderObject.depth → f below = g below) :
    sanoElement f kind renderObject parent = sanoElement g kind renderObject parent := by
  have items (self : Nat) (held : List Json)
      (cast : (renderObject.field "children").asListOrNull = some (some held)) :
      held.mapM (createItem f self) = held.mapM (createItem g self) := by
    apply mapM_congr
    intro item member
    unfold createItem
    cases object : item.asMap with
    | none => rfl
    | some below =>
      have lower := item_depth (asList_of_asListOrNull cast) member object
      simp only [Render.cast, pure_bind, same below lower]
  unfold sanoElement
  cases held : (renderObject.field "children").asListOrNull with
  | none => simp only [cast_none]
  | some list =>
    cases list with
    | none => rfl
    | some list => simp only [Render.cast, pure_bind, items _ list held]

theorem initSlot_congr {f g : Object → Nat → Dart Nat} {renderObject : Object} (self : Nat)
    (key : String) (build : Nat → Nat → Dart Unit)
    (same : ∀ below : Object, below.depth < renderObject.depth → f below = g below) :
    initSlot f renderObject self key build = initSlot g renderObject self key build := by
  unfold initSlot
  cases object : (renderObject.field key).asMap with
  | none => simp only [cast_none]
  | some below =>
    have lower : below.depth < renderObject.depth :=
      Nat.lt_of_lt_of_le (asMap_depth object) (field_depth renderObject key)
    simp only [Render.cast, pure_bind,
      sanoElement_congr .fragment (some self) fun deeper small => same deeper (Nat.lt_trans small lower)]

theorem createStep_local : Recursion.Local createStep Object.depth := by
  intro f g renderObject same
  have body := fun kind parent => sanoElement_congr kind parent same
  have slot (self : Nat) : initSlots f renderObject self = initSlots g renderObject self :=
    congrArg slots.forM (funext fun (key, build) => initSlot_congr self key build same)
  funext parent
  simp only [createStep, scaffoldElement, body, slot]

/-- `createNodeElement` as the source writes it: the depth bound never shows. -/
theorem createNodeElement_eq (renderObject : Object) :
    createNodeElement renderObject = createStep createNodeElement renderObject :=
  Recursion.fix_eq createStep_local _ _

end Recursion

end Sano.Render
