import Sano.Render.Update

namespace Sano.Render

section Kinds

structure Element.Kinded (el : Element) : Prop where
  element : el.kind = .element → el.tag ≠ "scaffold"
  scaffold : el.kind = .scaffold → el.tag = "scaffold"

def Typed (s : Store) : Prop := ∀ (a : Nat) (el : Element), s.heap[a]? = some el → el.Kinded

def KeepsTypes (s t : Store) : Prop := Typed s → Typed t

instance : Std.Refl KeepsTypes := ⟨fun _ typed => typed⟩

instance : IsTrans Store KeepsTypes := ⟨fun _ _ _ first second typed => second (first typed)⟩

theorem alloc_types (s : Store) {el : Element} (kinded : el.Kinded) : KeepsTypes s { s with heap := s.heap ++ [el] } := by
  intro typed a cell found
  rcases Nat.lt_or_ge a s.heap.length with old | new
  · rw [alloc_get el a old] at found
    exact typed a cell found
  · rw [List.getElem?_append_right new, List.getElem?_singleton] at found
    split at found
    · cases found
      exact kinded
    · cases found

theorem store_modify_types (s : Store) (a : Nat) (change : Element → Element) (kinds : ∀ el, (change el).kind = el.kind)
    (tags : ∀ el, (change el).tag = el.tag) : KeepsTypes s (s.modify a change) := by
  intro typed b el found
  rw [modify_get] at found
  split at found
  · obtain ⟨old, before, rfl⟩ := Option.map_eq_some_iff.mp found
    obtain ⟨element, scaffold⟩ := typed b old before
    refine ⟨fun kind => ?_, fun kind => ?_⟩
    · rw [tags]
      exact element ((kinds old).symm.trans kind)
    · rw [tags]
      exact scaffold ((kinds old).symm.trans kind)
  · exact typed b el found

theorem modify_types (a : Nat) (change : Element → Element) (kinds : ∀ el, (change el).kind = el.kind)
    (tags : ∀ el, (change el).tag = el.tag) : Advances KeepsTypes (modifyElement a change) :=
  fun s => store_modify_types s a change kinds tags

theorem cast_types {α β : Type} {value : Option α} {next : α → Dart β}
    (present : ∀ v, value = some v → Advances KeepsTypes (next v)) : Advances KeepsTypes (cast value >>= next) :=
  fun s => ends_cast (fun v held => present v held s) fun _ => refl_of KeepsTypes s

theorem read_types (a : Nat) : Advances KeepsTypes (read a) := by
  intro s
  unfold Ends read
  cases s.heap[a]? with
  | none => exact refl_of KeepsTypes s
  | some el => exact refl_of KeepsTypes s

theorem setNotifier_types (a : Nat) (value : Int) : Advances KeepsTypes (setNotifier a value) := by
  intro s
  cases found : s.heap[a]? with
  | none => simpa [Ends, setNotifier, found] using refl_of KeepsTypes s
  | some el =>
    unfold Ends
    rw [setNotifier_eq found]
    show KeepsTypes s (s.notify a value)
    unfold Store.notify
    split
    · exact refl_of KeepsTypes s
    · exact store_modify_types s a (.withNotifier value) (fun _ => rfl) fun _ => rfl

end Kinds

section Construction

def Types (create : Object → Nat → Dart Nat) (object : Object) : Prop :=
  ∀ parent, Advances KeepsTypes (create object parent)

theorem items_types {create : Object → Nat → Dart Nat} {items : List Json}
    (each : ∀ item ∈ items, ∀ object, item.asMap = some object → Types create object) (parent : Nat) :
    Advances KeepsTypes (items.mapM (createItem create parent)) := by
  refine Advances.mapM fun item member => ?_
  exact cast_types fun object cast => each item member object cast parent

theorem sanoElement_types {create : Object → Nat → Dart Nat} {renderObject : Object}
    (below : ∀ object : Object, object.depth < renderObject.depth → Types create object) {kind : Kind}
    (chosen : ∀ tag, (renderObject.field "tag").asString = some tag →
      (kind = .element → tag ≠ "scaffold") ∧ (kind = .scaffold → tag = "scaffold"))
    (parent : Option Nat) : Advances KeepsTypes (sanoElement create kind renderObject parent) := by
  refine cast_types fun id _ => cast_types fun tag hasTag => cast_types fun props _ => cast_types fun events _ => ?_
  obtain ⟨element, scaffold⟩ := chosen tag hasTag
  refine Advances.bind (fun s => alloc_types s ⟨element, scaffold⟩) fun self => cast_types fun items hasItems => ?_
  have finish (kids : Option (List Nat)) :
      Advances KeepsTypes (modifyElement self (.withChildren kids) >>= fun _ => schedule self >>= fun _ => pure self) :=
    (modify_types self (.withChildren kids) (fun _ => rfl) fun _ => rfl).bind fun _ _ typed => typed
  cases items with
  | none => exact finish none
  | some items =>
    have each (item : Json) (member : item ∈ items) (object : Object) (cast : item.asMap = some object) :
        Types create object := below object (item_depth (asList_of_asListOrNull hasItems) member cast)
    exact (items_types each self).bind fun children => finish (some children)

theorem floatingActionButtonBuilder_types (self element : Nat) :
    Advances KeepsTypes (floatingActionButtonBuilder self element) := by
  refine (read_types element).bind fun source => ?_
  split
  · exact modify_types self (.withFloatingActionButton none) (fun _ => rfl) fun _ => rfl
  · exact Advances.throw Error.rangeError
  · exact modify_types self (.withFloatingActionButton _) (fun _ => rfl) fun _ => rfl

theorem initSlots_types {create : Object → Nat → Dart Nat} {renderObject : Object}
    (below : ∀ object : Object, object.depth < renderObject.depth → Types create object) (self : Nat) :
    Advances KeepsTypes (initSlots create renderObject self) := by
  rw [initSlots_eq]
  unfold initSlot
  split
  · refine cast_types fun object cast => ?_
    have lower : object.depth < renderObject.depth :=
      Nat.lt_of_lt_of_le (asMap_depth cast) (field_depth renderObject _)
    refine (sanoElement_types (fun inner small => below inner (Nat.lt_trans small lower)) (by simp) _).bind
      fun element => ?_
    refine (modify_types self (.withFragment element) (fun _ => rfl) fun _ => rfl).bind fun _ => ?_
    exact floatingActionButtonBuilder_types self element
  · exact Advances.pure ()

theorem createNodeElement_types (object : Object) : Types createNodeElement object := by
  generalize bound : object.depth = n
  induction n using Nat.strongRecOn generalizing object with
  | ind n ih =>
    have below (inner : Object) (small : inner.depth < object.depth) : Types createNodeElement inner :=
      ih inner.depth (by omega) inner rfl
    intro parent
    rw [createNodeElement_eq]
    unfold createStep
    refine cast_types fun tag hasTag => ?_
    split
    · rename_i scaffold
      refine (sanoElement_types below ?_ _).bind fun self => (initSlots_types below self).bind fun _ => Advances.pure self
      intro other same
      cases Option.some.inj (hasTag.symm.trans same)
      exact ⟨by simp, fun _ => scaffold⟩
    · rename_i plain
      refine sanoElement_types below ?_ _
      intro other same
      cases Option.some.inj (hasTag.symm.trans same)
      exact ⟨fun _ => plain, by simp⟩

theorem rootElement_types (payload : Json) (channel : String) : Advances KeepsTypes (rootElement payload channel) :=
  cast_types fun _ _ => sanoElement_types (fun object _ => createNodeElement_types object) (by simp) none

end Construction

section Updates

theorem children_types (items : List Json) (self : Nat) {next : List Nat → Dart Unit}
    (after : ∀ children, Advances KeepsTypes (next children)) :
    Advances KeepsTypes (items.mapM (createItem createNodeElement self) >>= next) :=
  (items_types (fun _ _ object _ => createNodeElement_types object) self).bind after

theorem sanoUpdate_types (self : Nat) (renderObject : Object) (now : Int) :
    Advances KeepsTypes (sanoUpdate self renderObject now) := by
  refine Advances.bind (Advances.forM fun key _ => ?_) fun _ => setNotifier_types self now
  unfold updateKey
  split
  · refine cast_types fun items _ => children_types items self fun children => ?_
    exact modify_types self (.withChildren (some children)) (fun _ => rfl) fun _ => rfl
  · split
    · exact cast_types fun props _ => modify_types self (.mergeProps props) (fun _ => rfl) fun _ => rfl
    · exact Advances.pure ()

theorem fragmentUpdate_types (self : Nat) (renderObject : Object) (now : Int) :
    Advances KeepsTypes (fragmentUpdate self renderObject now) := by
  refine cast_types fun items _ => children_types items self fun children => ?_
  refine (modify_types self (.withChildren (some children)) (fun _ => rfl) fun _ => rfl).bind fun _ => ?_
  refine (read_types self).bind fun el => ?_
  split
  · exact Advances.pure ()
  · refine (read_types _).bind fun parent => ?_
    split
    · refine Advances.bind ?_ fun _ => setNotifier_types _ now
      rw [fillSlot_eq]
      split
      · exact floatingActionButtonBuilder_types _ self
      · exact Advances.pure ()
    · exact Advances.pure ()

theorem update_types (self : Nat) (renderObject : Object) (now : Int) :
    Advances KeepsTypes (update self renderObject now) := by
  refine (read_types self).bind fun el => ?_
  split
  · exact fragmentUpdate_types self renderObject now
  · exact sanoUpdate_types self renderObject now

end Updates

end Sano.Render
