import Sano.Render.Update

namespace Sano.Render

section Model

def Reflects (s : Store) (a f : Nat) : Prop :=
  ∃ el fragment, s.heap[a]? = some el ∧ s.heap[f]? = some fragment ∧
    el.floatingActionButton = (fragment.children.getD []).head?

def slotOf (s : Store) (a : Nat) : Option Nat := (s.heap[a]?).bind Element.floatingActionButton

def Follows (a f : Nat) (s : Store) : List (Object × Int) → Prop
  | [] => True
  | (payload, now) :: rest =>
    Ends (update f payload now) s
      (fun _ t => Reflects t a f ∧ (payload.containsKey "children" = false → slotOf t a = slotOf s a) ∧
        Follows a f t rest)
      fun _ _ => False

def SlotFollows (object : Object) (parent : Nat) (s : Store) (updates : List (Object × Int)) : Prop :=
  Ends (createNodeElement object parent) s
    (fun a t => ∃ f, (t.heap[a]?).bind Element.fragment = some f ∧ Reflects t a f ∧ Follows a f t updates)
    fun _ _ => False

def Doc.tag : Doc → String
  | .node _ tag _ _ _ _ => tag

def Doc.slot : Doc → Option Doc
  | .node _ _ _ _ _ slot => slot

def payloadDocs (payload : Object) : Option (List Doc) := (payload.field "children").asList.bind docsOf

def Suits (tag : String) (unfilled : Prop) (payload : Object) : Prop :=
  ∃ docs, payloadDocs payload = some docs ∧
    if tag = "floating-action-button-fragment" then docs ≠ [] else docs = [] ∧ unfilled

end Model

section Updates

structure Paired (s : Store) (a f : Nat) (tag : String) : Prop where
  wf : WellFormed s
  holder : ∃ el, s.heap[a]? = some el
  fragment : ∃ el, s.heap[f]? = some el ∧ el.kind = .fragment ∧ el.parent = some a ∧ el.tag = tag
  slot : ∀ b, slotOf s a = some b → b < s.heap.length

theorem slotChange_eq (tag : String) (payload : Object) :
    slotChange tag payload = (payloadDocs payload).bind fun docs =>
      if tag = "floating-action-button-fragment" ∧ docs = [] then none else some { children := some docs } := by
  unfold slotChange payloadDocs
  cases (payload.field "children").asList with
  | none => rfl
  | some items =>
    simp only [Option.bind_eq_bind, Option.bind_some, List.isEmpty_iff]

theorem fill_notify_slot {s : Store} {a : Nat} {el : Element} (found : s.heap[a]? = some el) (tag : String)
    (first : Option Nat) (value : Int) :
    slotOf ((s.fill a tag first).notify a value) a =
      if tag = "floating-action-button-fragment" then first else el.floatingActionButton := by
  have kept (t : Store) (held : Element) (there : t.heap[a]? = some held) :
      slotOf (t.notify a value) a = held.floatingActionButton := by
    unfold Store.notify
    split
    · simp [slotOf, there]
    · simp [slotOf, Store.mark, modify_get_self _ there, Element.withNotifier]
  unfold Store.fill
  split
  next named => exact kept _ _ (modify_get_self _ found)
  next => exact kept _ _ found

theorem childless_payload {payload : Object} (lacks : payload.containsKey "children" = false) :
    payloadDocs payload = none := by
  have absent : payload.get? "children" = none := by
    simpa [LinkedMap.containsKey] using lacks
  simp [payloadDocs, Object.field, absent, Json.asList]

theorem update_fragment {s : Store} {f : Nat} {el : Element} (found : s.heap[f]? = some el) (fragment : el.kind = .fragment)
    (payload : Object) (now : Int) : update f payload now s = fragmentUpdate f payload now s := by
  have loaded : read f s = .ok el s := by simp [read, found]
  simp [update, Bind.bind, EStateM.bind, loaded, fragment]

theorem fragment_rejects {s : Store} {a f : Nat} {tag : String} (paired : Paired s a f tag) {payload : Object}
    (rejected : slotChange tag payload = none) (now : Int) : ∃ fault t, update f payload now s = .error fault t := by
  obtain ⟨el, found, fragment, _, rfl⟩ := paired.fragment
  have ends := fragmentUpdate_ends paired.wf found fragment payload now
  rw [update_fragment found fragment]
  cases result : fragmentUpdate f payload now s with
  | error fault t => exact ⟨fault, t, rfl⟩
  | ok value t =>
    obtain ⟨change, _, _, _, asked, _⟩ := ends.ok result
    rw [rejected] at asked
    cases asked

structure Refilled (s t : Store) (a f : Nat) (tag : String) (docs : List Doc) (kids : List Nat) : Prop where
  paired : Paired t a f tag
  children : (t.heap[f]?).map Element.children = some (some kids)
  length : kids.length = docs.length
  fresh : ∀ k ∈ kids, s.heap.length ≤ k
  slot : slotOf t a = if tag = "floating-action-button-fragment" then kids.head? else slotOf s a

theorem fragment_accepts {s : Store} {a f : Nat} {tag : String} (paired : Paired s a f tag) {payload : Object}
    {docs : List Doc} (asked : slotChange tag payload = some { children := some docs }) (now : Int) :
    ∃ t kids, update f payload now s = .ok () t ∧ Refilled s t a f tag docs kids := by
  obtain ⟨el, found, fragment, parent, rfl⟩ := paired.fragment
  obtain ⟨holder, held⟩ := paired.holder
  have ends := fragmentUpdate_ends paired.wf found fragment payload now
  have below : a < f := (paired.wf.sound f el found).parent a parent
  have bound := (List.getElem?_eq_some_iff.mp held).1
  rw [update_fragment found fragment]
  cases result : fragmentUpdate f payload now s with
  | error fault t =>
    have rejected := (ends.error result).1
    rw [asked] at rejected
    cases rejected
  | ok value t =>
    obtain ⟨change, middle, owner, kids, same, edited, owned, children, rfl⟩ := ends.ok result
    cases Option.some.inj (asked.symm.trans same)
    cases Option.some.inj (parent.symm.trans owned)
    obtain ⟨_, cell, list, rfl, shown, new⟩ := edited.cell
    have own : list = kids := by simpa [cell, Element.edited] using children
    subst own
    have holds : middle.heap[a]? = some holder := (edited.others a bound (by omega)).trans held
    have still : ((middle.fill a el.tag list.head?).notify a now).heap[f]? = middle.heap[f]? := by
      rw [notify_get_other _ (by omega), fill_get_other _ _ (by omega)]
    have slot := fill_notify_slot holds el.tag list.head? now
    have repainted := (Repainted.fill middle a el.tag list.head?).trans (.notify _ a now)
    have before : slotOf s a = holder.floatingActionButton := by simp [slotOf, held]
    refine ⟨_, list, rfl, ⟨?_, by rw [still, children], by simp [← shown], fun k member => (new k member).1, ?_⟩⟩
    · obtain ⟨after, there, _⟩ := repainted.cells a holder holds
      refine ⟨repainted.wf edited.wf, ⟨after, there⟩, ⟨_, still.trans cell, fragment, parent, rfl⟩, fun b filled => ?_⟩
      rw [repainted.length]
      rw [slot] at filled
      split at filled
      · exact (new b (List.mem_of_head? filled)).2
      · exact Nat.lt_of_lt_of_le (paired.slot b (before.trans filled)) edited.longer
    · rw [slot, before]

theorem reflects_iff {s : Store} {a f : Nat} {tag : String} (paired : Paired s a f tag) {kids : Option (List Nat)}
    (children : (s.heap[f]?).map Element.children = some kids) : Reflects s a f ↔ slotOf s a = (kids.getD []).head? := by
  obtain ⟨holder, held⟩ := paired.holder
  obtain ⟨el, found, _⟩ := paired.fragment
  have same : el.children = kids := by simpa [found] using children
  simp [Reflects, slotOf, held, found, same]

/-- A fragment with another tag shows nothing new in the slot. -/
theorem refilled_reflects_iff {s t : Store} {a f : Nat} {tag : String} {docs : List Doc} {kids : List Nat}
    (paired : Paired s a f tag) (refilled : Refilled s t a f tag docs kids) :
    Reflects t a f ↔ tag = "floating-action-button-fragment" ∨ docs = [] ∧ slotOf s a = none := by
  rw [reflects_iff refilled.paired refilled.children, refilled.slot]
  have empty : docs = [] ↔ kids = [] := by rw [← List.length_eq_zero_iff, ← refilled.length, List.length_eq_zero_iff]
  by_cases named : tag = "floating-action-button-fragment"
  · simp [named]
  · simp only [named, if_false, Option.getD_some, false_or, empty]
    cases kids with
    | nil => simp
    | cons first rest =>
      simp only [List.head?_cons, reduceCtorEq, false_and, iff_false]
      intro old
      have bound := paired.slot first old
      have new := refilled.fresh first List.mem_cons_self
      omega

theorem slotChange_some_iff {tag : String} {payload : Object} {change : Change} :
    slotChange tag payload = some change ↔ ∃ docs, payloadDocs payload = some docs ∧
      ¬ (tag = "floating-action-button-fragment" ∧ docs = []) ∧ change = { children := some docs } := by
  rw [slotChange_eq, Option.bind_eq_some_iff]
  refine exists_congr fun docs => and_congr_right fun _ => ?_
  split
  next empty => simp [empty]
  next sufficient => simp [sufficient, eq_comm]

theorem suits_of_slotChange {tag : String} {payload : Object} {unfilled : Prop} (suits : Suits tag unfilled payload) :
    slotChange tag payload ≠ none := by
  obtain ⟨docs, brought, enough⟩ := suits
  apply Option.ne_none_iff_exists'.mpr
  refine ⟨_, slotChange_some_iff.mpr ⟨docs, brought, ?_, rfl⟩⟩
  rintro ⟨named, empty⟩
  simp [named, empty] at enough

theorem refilled_suits_iff {s t : Store} {a f : Nat} {tag : String} {docs : List Doc} {kids : List Nat}
    (refilled : Refilled s t a f tag docs kids) (payload : Object) :
    Suits tag (slotOf t a = none) payload ↔ Suits tag (slotOf s a = none) payload := by
  unfold Suits
  rw [refilled.slot]
  by_cases named : tag = "floating-action-button-fragment" <;> simp [named]

theorem follows_iff {a f : Nat} {tag : String} (updates : List (Object × Int)) {s : Store} (paired : Paired s a f tag) :
    Follows a f s updates ↔ ∀ update ∈ updates, Suits tag (slotOf s a = none) update.1 := by
  induction updates generalizing s with
  | nil => simp [Follows]
  | cons first rest ih =>
    obtain ⟨payload, now⟩ := first
    simp only [Follows, List.forall_mem_cons]
    cases asked : slotChange tag payload with
    | none =>
      obtain ⟨fault, t, result⟩ := fragment_rejects paired asked now
      simp only [Ends, result, false_iff]
      exact fun all => suits_of_slotChange all.1 asked
    | some change =>
      obtain ⟨docs, brought, sufficient, rfl⟩ := slotChange_some_iff.mp asked
      obtain ⟨t, kids, result, refilled⟩ := fragment_accepts paired asked now
      have contains : payload.containsKey "children" = true := by
        by_contra lacks
        rw [childless_payload (Bool.eq_false_iff.mpr lacks)] at brought
        cases brought
      have here : Suits tag (slotOf s a = none) payload ↔ Reflects t a f := by
        rw [refilled_reflects_iff paired refilled]
        by_cases named : tag = "floating-action-button-fragment"
        · simpa [Suits, brought, named] using fun empty => sufficient ⟨named, empty⟩
        · simp [Suits, brought, named]
      simp only [Ends, result, contains, here, ih refilled.paired, refilled_suits_iff refilled]
      simp

end Updates

section Construction

def Slotted (s : Store) (a f : Nat) : Prop :=
  ∃ el fragment, s.heap[a]? = some el ∧ el.fragment = some f ∧ s.heap[f]? = some fragment ∧
    fragment.kind = .fragment ∧ fragment.parent = some a ∧ fragment.children ≠ some [] ∧
    el.floatingActionButton = (fragment.children.getD []).head?

theorem initSlots_slotted {renderObject : Object} {t : Store} {a : Nat} {el : Element} (wf : WellFormed t)
    (found : t.heap[a]? = some el) (scaffold : el.kind = .scaffold)
    (present : renderObject.containsKey "floating-action-button-fragment" = true) :
    Ends (initSlots createNodeElement renderObject a) t (fun _ v => ∃ f, Slotted v a f) fun _ _ => True := by
  have bound : a < t.heap.length := (List.getElem?_eq_some_iff.mp found).1
  rw [initSlots_eq]
  unfold initSlot
  simp only [present, if_true]
  apply ends_cast
  case absent => exact fun _ => trivial
  intro object cast
  apply Ends.bind
  apply (sanoElement_ends (fun below _ => createNodeElement_creates below) .fragment (some a) t wf
    (by simpa using bound) (by simp) (fun _ => ⟨a, el, rfl, found, scaffold⟩)).mono
  case onThrown => exact fun _ _ _ => trivial
  rintro f u ⟨built, ⟨fragment, cell, kind, _⟩, _⟩
  obtain ⟨same, again, parent⟩ := built.cell
  cases Option.some.inj (cell.symm.trans again)
  apply Ends.bind
  show Ends (floatingActionButtonBuilder a f) (u.modify a (.withFragment f)) _ _
  have other : a ≠ f := by
    rw [built.address]
    omega
  have held := (modify_get_other (.withFragment f) other).trans cell
  unfold Ends
  rw [floatingActionButtonBuilder_eq held]
  by_cases empty : fragment.children = some []
  · simp [empty]
  · simp only [empty, if_false]
    refine ⟨f, _, fragment, modify_get_self _ (modify_get_self _ (built.grown.found found)), rfl, ?_, kind, parent, empty, rfl⟩
    exact (modify_get_other _ other).trans held

theorem scaffold_slotted {object : Object} (scaffold : (object.field "tag").asString = some "scaffold")
    (present : object.containsKey "floating-action-button-fragment" = true) {s : Store} (wf : WellFormed s) {parent : Nat}
    (bound : parent < s.heap.length) :
    Ends (createNodeElement object parent) s (fun a t => ∃ f, Slotted t a f) fun _ _ => True := by
  rw [createNodeElement_eq]
  unfold createStep
  apply ends_cast
  case absent => exact fun _ => trivial
  intro tag hasTag
  cases Option.some.inj (scaffold.symm.trans hasTag)
  simp only [if_true]
  apply Ends.bind
  apply (sanoElement_ends (fun below _ => createNodeElement_creates below) .scaffold (some parent) s wf
    (by simpa using bound) (by simp) (by simp)).mono
  case onThrown => exact fun _ _ _ => trivial
  rintro a t ⟨built, ⟨el, cell, kind, _⟩, _⟩
  apply Ends.bind
  apply (initSlots_slotted built.wf cell kind present).mono
  · exact fun _ v slotted => slotted
  · exact fun _ _ _ => trivial

theorem slotted_paired {s : Store} (wf : WellFormed s) {a f : Nat} (slotted : Slotted s a f) :
    ∃ slot, (doc s.heap a).slot = some slot ∧ Paired s a f slot.tag ∧ Reflects s a f ∧
      (slotOf s a = none ↔ slot.children = none) := by
  obtain ⟨el, fragment, found, linked, cell, kind, parent, nonempty, shown⟩ := slotted
  have face := doc_node wf.linked cell
  refine ⟨doc s.heap f, ?_, ⟨wf, ⟨el, found⟩, ⟨fragment, cell, kind, parent, ?_⟩, ?_⟩, ⟨el, fragment, found, cell, shown⟩, ?_⟩
  · rw [doc_node wf.linked found]
    simp [Doc.slot, linked]
  · rw [face]
    rfl
  · intro b filled
    have first : (fragment.children.getD []).head? = some b := by simpa [slotOf, found, shown] using filled
    have member : b ∈ fragment.links := List.mem_append_left _ (List.mem_of_head? first)
    exact (wf.linked f fragment cell b member).2
  · rw [doc_children wf cell]
    simp only [slotOf, found, Option.bind_some, shown]
    cases kids : fragment.children with
    | none => simp
    | some list =>
      cases list with
      | nil => exact absurd kids nonempty
      | cons first rest => simp

/-- The slot follows the fragment through its construction and every update exactly
    when the payload is accepted and every update suits the fragment. -/
theorem slot_follows_iff (object : Object) (scaffold : (object.field "tag").asString = some "scaffold")
    (present : object.containsKey "floating-action-button-fragment" = true) (s : Store) (wf : WellFormed s) (parent : Nat)
    (bound : parent < s.heap.length) (updates : List (Object × Int)) :
    SlotFollows object parent s updates ↔
      ∃ slot, (docOf object).bind Doc.slot = some slot ∧
        ∀ update ∈ updates, Suits slot.tag (slot.children = none) update.1 := by
  have creates := createNodeElement_creates object parent s wf bound
  have slots := scaffold_slotted scaffold present wf bound
  unfold SlotFollows Ends
  cases result : createNodeElement object parent s with
  | error fault t =>
    have rejected := (creates.error result).2.2
    simp [rejected]
  | ok a t =>
    obtain ⟨built, shown⟩ := creates.ok result
    obtain ⟨f, slotted⟩ := slots.ok result
    obtain ⟨slot, read, paired, reflects, unfilled⟩ := slotted_paired built.wf slotted
    obtain ⟨el, _, found, linked, _⟩ := slotted
    have own : (t.heap[a]?).bind Element.fragment = some f := by simp [found, linked]
    simp only [shown, Option.bind_some, read, Option.some.injEq, exists_eq_left', own, reflects, true_and,
      follows_iff updates paired, unfilled]

def stage : Store := { heap := [{ kind := .root, id := "", tag := "root", props := ∅, events := none, parent := none }] }

theorem stage_wellFormed : WellFormed stage where
  sound a el found := by
    have first : a = 0 := by
      have bound := (List.getElem?_eq_some_iff.mp found).1
      simpa [stage] using bound
    subst first
    cases Option.some.inj found
    exact ⟨by simp [Element.links], by simp [Element.links], by simp, by simp, by simp⟩
  scheduled b task := by simp [stage] at task

def buttonPage (children : List Json) : Object :=
  LinkedMap.ofList [("id", .string "page"), ("tag", .string "scaffold"),
    ("floating-action-button-fragment", .map [("id", .string "button"),
      ("tag", .string "floating-action-button-fragment"), ("children", .list children)])]

theorem slot_follows_iff_button :
    let text : Json := .map [("id", .string "text"), ("tag", .string "text")]
    WellFormed stage ∧ (SlotFollows (buttonPage [text]) 0 stage [(LinkedMap.ofList [("children", .list [text])], 7)] ↔
      ∃ slot, (docOf (buttonPage [text])).bind Doc.slot = some slot ∧
        ∀ update ∈ [((LinkedMap.ofList [("children", .list [text])] : Object), (7 : Int))],
          Suits slot.tag (slot.children = none) update.1) := by
  intro text
  exact ⟨stage_wellFormed, slot_follows_iff (buttonPage [text]) (by decide +kernel) (by decide +kernel) stage
    stage_wellFormed 0 (by decide) _⟩

/-- A fragment with an empty child list: `children?[0]` is out of range. -/
theorem empty_fragment_throws : WellFormed stage ∧ ¬ SlotFollows (buttonPage []) 0 stage [] := by
  have throws : returns (fun _ _ => true) (createNodeElement (buttonPage []) 0 stage) = false := by decide +kernel
  refine ⟨stage_wellFormed, fun follows => ?_⟩
  unfold SlotFollows Ends at follows
  cases result : createNodeElement (buttonPage []) 0 stage with
  | ok a t => simp [result, returns] at throws
  | error fault t => simp [result] at follows

end Construction

end Sano.Render
