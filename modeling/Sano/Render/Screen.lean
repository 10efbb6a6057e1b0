import Sano.Render.Evolution
import Sano.Render.Kinds
import Sano.Render.Reflection
import Sano.Render.Widget

namespace Sano.Render

open Parse Widget

section Model

inductive Screen where
  | blank
  | widget (layer : Layer Screen)

variable (dart : Library)

def Builder.layer (el : Element) (b : Builder) : Layer Nat :=
  builder dart (el.kind = .scaffold) el.tag b.built.props b.built.children b.built.floatingActionButton

/-- What the mounted builder of an element shows. Its children come after it, as in a document. -/
def screenStep (s : Store) (screen : Nat → Screen) (a : Nat) : Screen :=
  match s.heap[a]?, s.builders.find? (·.element = a) with
  | some el, some b => .widget ((b.layer dart el).map fun c => if a < c then screen c else .blank)
  | _, _ => .blank

def screenAt (s : Store) : Nat → Screen := Recursion.fix (screenStep dart s) .blank fun a => s.heap.length - a

mutual

def render : Doc → Screen
  | .node _ tag props _ none slot => .widget (builder dart true tag props none (renderSlot slot))
  | .node _ tag props _ (some children) slot =>
    .widget (builder dart true tag props (some (renderAll children)) (renderSlot slot))

def renderAll : List Doc → List Screen
  | [] => []
  | first :: rest => render first :: renderAll rest

def renderSlot : Option Doc → Option Screen
  | some (.node _ _ _ _ (some (first :: _)) _) => some (render first)
  | _ => none

end

def Builder.shows (heap : List Element) (b : Builder) : List Nat :=
  (heap[b.element]?.map fun el => (b.layer dart el).parts).getD []

def Complete (s : Store) : Prop :=
  ∀ b ∈ s.builders, b.dirty = false ∧ ∀ c ∈ b.shows dart s.heap, c ∈ s.builders.map Builder.element

/-- The update is noticed. A fragment has the name of its slot and gets children to show. -/
def Tidy (s : Store) (e : Nat) (renderObject : Object) (now : Int) : Prop :=
  Noticed s (.update e renderObject now) ∧ ∀ el, s.heap[e]? = some el → el.kind = .fragment →
    el.tag = "floating-action-button-fragment" ∧ slotChange el.tag renderObject ≠ none

def TidyAll (listeners : LinkedMap String Nat) : List (String × Json) → (Nat → Int) → Store → Prop
  | [], _, _ => True
  | (id, value) :: rest, clock, s =>
    (∀ renderObject ∈ value.asMap, ∀ e ∈ listeners.get? id, Tidy s e renderObject (clock 0)) ∧
      match emit listeners id value (clock 0) s with
      | .ok _ t => TidyAll listeners rest (fun n => clock (n + 1)) t
      | .error _ _ => True

def World.Tidy (w : World) : Event → Prop
  | .update page data clock => ∀ entries ∈ data.asMap, ∀ root ∈ w.roots.get? page,
      TidyAll (w.listeners root) entries.entries clock w.store
  | _ => True

instance (s : Store) (e : Nat) : Decidable (Marked s e) := inferInstanceAs (Decidable (∀ b ∈ s.builders, _))

instance (s : Store) (e : Nat) (now : Int) : Decidable (Signals s e now) :=
  inferInstanceAs (Decidable (Marked s e ∨ ∀ el ∈ s.heap[e]?, _))

instance (s : Store) : (event : Act) → Decidable (Noticed s event)
  | .frame _ => isTrue trivial
  | .update e renderObject now =>
    inferInstanceAs (Decidable (∀ el ∈ s.heap[e]?,
      if el.kind = .fragment then
        slotChange el.tag renderObject = none ∨ el.tag ≠ "floating-action-button-fragment" ∨
          ∀ holder ∈ el.parent, Signals s holder now
      else
        Marked s e ∨ ("children" ∉ renderObject.keys ∧ "props" ∉ renderObject.keys) ∨
          (changeOf el renderObject ≠ none ∧ el.notifier ≠ now)))

instance (s : Store) (e : Nat) (renderObject : Object) (now : Int) : Decidable (Tidy s e renderObject now) :=
  inferInstanceAs (Decidable (_ ∧ ∀ el ∈ s.heap[e]?, _))

instance decidableTidyAll (listeners : LinkedMap String Nat) :
    (entries : List (String × Json)) → (clock : Nat → Int) → (s : Store) → Decidable (TidyAll listeners entries clock s)
  | [], _, _ => isTrue trivial
  | (id, value) :: rest, clock, s =>
    have : Decidable (match emit listeners id value (clock 0) s with
        | .ok _ t => TidyAll listeners rest (fun n => clock (n + 1)) t
        | .error _ _ => True) :=
      match emit listeners id value (clock 0) s with
      | .ok _ t => decidableTidyAll listeners rest (fun n => clock (n + 1)) t
      | .error _ _ => isTrue trivial
    inferInstanceAs (Decidable ((∀ renderObject ∈ value.asMap, _) ∧ _))

instance (w : World) : (event : World.Event) → Decidable (w.Tidy event)
  | .mount _ _ => isTrue trivial
  | .update page data clock =>
    inferInstanceAs (Decidable (∀ entries ∈ data.asMap, ∀ root ∈ w.roots.get? page,
      TidyAll (w.listeners root) entries.entries clock w.store))
  | .task => isTrue trivial
  | .frame _ => isTrue trivial

instance (s : Store) : Decidable (Complete dart s) :=
  inferInstanceAs (Decidable (∀ b ∈ s.builders, b.dirty = false ∧
    ∀ c ∈ b.shows dart s.heap, c ∈ s.builders.map Builder.element))

end Model

section Documents

variable {dart : Library}

theorem renderAll_eq (docs : List Doc) : renderAll dart docs = docs.map (render dart) := by
  induction docs with
  | nil => rfl
  | cons first rest ih => rw [renderAll, ih, List.map_cons]

def Doc.firstChild (d : Doc) : Option Doc := d.children.bind List.head?

theorem renderSlot_eq (slot : Option Doc) : renderSlot dart slot = (slot.bind Doc.firstChild).map (render dart) := by
  cases slot with
  | none => rfl
  | some d =>
    obtain ⟨_, _, _, _, children, _⟩ := d
    cases children with
    | none => rfl
    | some children => cases children <;> rfl

theorem render_node (id tag : String) (props : Object) (events : Option (List String)) (children : Option (List Doc))
    (slot : Option Doc) :
    render dart (.node id tag props events children slot) =
      .widget ((builder dart true tag props children (slot.bind Doc.firstChild)).map (render dart)) := by
  rw [← builder_map, ← renderSlot_eq]
  cases children with
  | none => rfl
  | some children =>
    rw [render, renderAll_eq]
    rfl

end Documents

section Screens

variable {dart : Library} {s : Store}

theorem screenStep_local (s : Store) : Recursion.Local (screenStep dart s) fun a => s.heap.length - a := by
  intro f g a same
  unfold screenStep
  cases found : s.heap[a]? with
  | none => rfl
  | some el =>
    have bound : a < s.heap.length := (List.getElem?_eq_some_iff.mp found).1
    have below : (fun c => if a < c then f c else .blank) = fun c => if a < c then g c else Screen.blank := by
      funext c
      by_cases later : a < c
      · simp only [later, if_true]
        exact same c (Nat.sub_lt_sub_left bound later)
      · simp only [later, if_false]
    simp only [below]

theorem screenAt_eq (s : Store) (a : Nat) : screenAt dart s a = screenStep dart s (screenAt dart s) a :=
  Recursion.fix_eq (screenStep_local s) _ _

theorem doc_firstChild (linked : Linked s.heap) {f : Nat} {cell : Element} (found : s.heap[f]? = some cell) :
    (doc s.heap f).firstChild = (cell.children.bind List.head?).map (doc s.heap) := by
  rw [doc_node linked found]
  cases cell.children with
  | none => rfl
  | some kids => cases kids <;> rfl

theorem Mirrored.button_doc (mirrored : Mirrored s) (linked : Linked s.heap) {a : Nat} {el : Element}
    (found : s.heap[a]? = some el) :
    (el.fragment.map (doc s.heap)).bind Doc.firstChild = el.floatingActionButton.map (doc s.heap) := by
  obtain ⟨button, fragment⟩ := mirrored.filled a el found
  rw [button]
  cases held : el.fragment with
  | none => rfl
  | some f =>
    obtain ⟨cell, there, _⟩ := fragment f held
    simp only [Option.map_some, Option.bind_some, there, doc_firstChild linked there]

theorem Mirrored.button_later (mirrored : Mirrored s) (linked : Linked s.heap) {a c : Nat} {el : Element}
    (found : s.heap[a]? = some el) (button : el.floatingActionButton = some c) : a < c ∧ c < s.heap.length := by
  rw [(mirrored.filled a el found).button] at button
  obtain ⟨kids, held, first⟩ := Option.bind_eq_some_iff.mp button
  obtain ⟨f, fragment, there⟩ := Option.bind_eq_some_iff.mp held
  obtain ⟨cell, cellFound, children⟩ := Option.bind_eq_some_iff.mp there
  have outer := linked a el found f (by simp [Element.links, fragment])
  have inner := linked f cell cellFound c (by simp [Element.links, children, List.mem_of_head? first])
  omega

/-- The cast of a scaffold succeeds. -/
theorem Element.Kinded.builder {el : Element} (kinded : el.Kinded) (mountable : el.kind.mountable = true) {γ : Type}
    (children : Option (List γ)) (button : Option γ) :
    Widget.builder dart (el.kind = .scaffold) el.tag el.props children button =
      Widget.builder dart true el.tag el.props children button := by
  by_cases scaffold : el.tag = "scaffold"
  · have kind : el.kind = .scaffold := by
      cases held : el.kind with
      | element => exact absurd scaffold (kinded.element held)
      | scaffold => rfl
      | root => simp [held, Kind.mountable] at mountable
      | fragment => simp [held, Kind.mountable] at mountable
    simp [kind]
  · exact builder_plain dart _ el.props children button scaffold true button

structure Shown (s : Store) : Prop where
  painted : Painted s
  mirrored : Mirrored s
  typed : Typed s

/-- Where a frame is over, a widget shows what its element holds now. -/
theorem Shown.screen_layer (shown : Shown s) (complete : Complete dart s) {a : Nat}
    (mounted : a ∈ s.builders.map Builder.element) {el : Element} (found : s.heap[a]? = some el) :
    (∀ c ∈ (builder dart true el.tag el.props el.children el.floatingActionButton).parts,
      (a < c ∧ c < s.heap.length) ∧ c ∈ s.builders.map Builder.element) ∧
    screenAt dart s a =
      .widget ((builder dart true el.tag el.props el.children el.floatingActionButton).map (screenAt dart s)) := by
  obtain ⟨painted, mirrored, typed⟩ := shown
  obtain ⟨any, listed, rfl⟩ := List.mem_map.mp mounted
  obtain ⟨b, held⟩ : ∃ b, s.builders.find? (·.element = any.element) = some b := by
    refine Option.isSome_iff_exists.mp (List.find?_isSome.mpr ⟨any, listed, ?_⟩)
    simp
  have member := List.mem_of_find?_eq_some held
  have own : b.element = any.element := by simpa using List.find?_some held
  obtain ⟨_, there, mountable, shown⟩ := painted.builders b member
  rw [own] at there
  cases Option.some.inj (found.symm.trans there)
  obtain ⟨clean, parts⟩ := complete b member
  have built : b.built = el.snapshot := shown.resolve_left (by simp [clean])
  have layer : b.layer dart el = builder dart true el.tag el.props el.children el.floatingActionButton := by
    rw [Builder.layer, built]
    exact (typed any.element el found).builder mountable el.children el.floatingActionButton
  have later (c : Nat) (part : c ∈ (b.layer dart el).parts) : any.element < c ∧ c < s.heap.length := by
    rw [layer] at part
    refine builder_parts (P := fun c => any.element < c ∧ c < s.heap.length) dart true el.props el.children
      el.floatingActionButton ?_ ?_ part
    · intro child member
      exact painted.wf.linked any.element el found child (List.mem_append_left _ member)
    · intro child button
      exact mirrored.button_later painted.wf.linked found button
  rw [← layer]
  refine ⟨fun c part => ⟨later c part, parts c (by simpa [Builder.shows, own, found] using part)⟩, ?_⟩
  rw [screenAt_eq, screenStep, found, held]
  exact congrArg Screen.widget (Layer.map_congr fun c part => if_pos (later c part).1)

/-- Where every builder shows its element and all that is shown is mounted, the screen shows
    the document. -/
theorem Shown.screen_document (shown : Shown s) (complete : Complete dart s) (a : Nat)
    (mounted : a ∈ s.builders.map Builder.element) : screenAt dart s a = render dart (doc s.heap a) := by
  have linked := shown.painted.wf.linked
  generalize distance : s.heap.length - a = n
  induction n using Nat.strongRecOn generalizing a with
  | ind n ih =>
    obtain ⟨el, found⟩ : ∃ el, s.heap[a]? = some el := by
      obtain ⟨b, member, rfl⟩ := List.mem_map.mp mounted
      obtain ⟨el, found, _⟩ := shown.painted.builders b member
      exact ⟨el, found⟩
    obtain ⟨parts, screen⟩ := shown.screen_layer complete mounted found
    have below (c : Nat) (part : c ∈ (builder dart true el.tag el.props el.children el.floatingActionButton).parts) :
        screenAt dart s c = render dart (doc s.heap c) := by
      obtain ⟨later, mounted⟩ := parts c part
      exact ih (s.heap.length - c) (by omega) c mounted rfl
    rw [screen, Layer.map_congr below, doc_node linked found, render_node, shown.mirrored.button_doc linked found,
      builder_map, Layer.map_map]
    rfl

end Screens

section Updates

variable {s : Store}

theorem Shown.frameOp (shown : Shown s) (op : FrameOp) : Shown (s.frameOp op) where
  painted := shown.painted.frameOp op
  mirrored := by
    rw [Mirrored, frameOp_heap, frameOp_scheduled]
    exact shown.mirrored
  typed := by
    rw [Typed, frameOp_heap]
    exact shown.typed

theorem update_mirrors (wf : WellFormed s) (mirrored : Mirrored s) {e : Nat} (task : e ∈ s.scheduled) {renderObject : Object}
    {now : Int} (tidy : Tidy s e renderObject now) :
    Ends (update e renderObject now) s (fun _ t => Mirrored t) fun _ t => Mirrored t := by
  obtain ⟨el, found⟩ : ∃ el, s.heap[e]? = some el := ⟨_, List.getElem?_eq_getElem (wf.scheduled e task)⟩
  apply Ends.bind
  unfold Ends
  rw [show read e s = .ok el s by simp [read, found]]
  by_cases fragment : el.kind = .fragment
  · obtain ⟨named, accepted⟩ := tidy.2 el found fragment
    simp only [fragment, if_true]
    apply ((fragmentUpdate_mirrors wf mirrored found fragment named task renderObject now).both
      (fragmentUpdate_ends wf found fragment renderObject now)).mono
    · exact fun _ _ after => after.1
    · exact fun _ _ thrown => absurd thrown.2.1 accepted
  · simp only [fragment, if_false]
    exact sanoUpdate_mirrors ⟨wf, mirrored, el, found, fragment⟩ renderObject now

theorem Shown.update (shown : Shown s) {e : Nat} (task : e ∈ s.scheduled) {renderObject : Object} {now : Int}
    (tidy : Render.Tidy s e renderObject now) :
    Ends (Render.update e renderObject now) s (fun _ t => Shown t) fun _ t => Shown t := by
  have painted : Ends (Render.update e renderObject now) s (fun _ t => Painted t) fun _ t => Painted t :=
    Ends.of_final (shown.painted.act (.update e renderObject now) tidy.1)
  apply ((painted.both (update_mirrors shown.painted.wf shown.mirrored task tidy)).both
    (update_types e renderObject now s)).mono
  · exact fun _ _ after => ⟨after.1.1, after.1.2, after.2 shown.typed⟩
  · exact fun _ _ after => ⟨after.1.1, after.1.2, after.2 shown.typed⟩

theorem Shown.grow {t : Store} (shown : Shown s) (grown : Grown s t) (wf : WellFormed t) (mirrored : Mirrored t)
    (types : KeepsTypes s t) : Shown t where
  painted := shown.painted.still wf grown.builders fun _ el found _ => ⟨el, grown.found found, rfl, rfl, .inr rfl⟩
  mirrored := mirrored
  typed := types shown.typed

theorem Shown.emit {listeners : LinkedMap String Nat} (shown : Shown s)
    (listed : ∀ id e, listeners.get? id = some e → e ∈ s.scheduled) {id : String} {value : Json} {now : Int}
    (tidy : ∀ renderObject ∈ value.asMap, ∀ e ∈ listeners.get? id, Render.Tidy s e renderObject now) :
    Ends (Render.emit listeners id value now) s (fun _ t => Shown t ∧ Evolves s t) fun _ t => Shown t := by
  have shows : Ends (Render.emit listeners id value now) s (fun _ t => Shown t) fun _ t => Shown t := by
    refine ends_cast (fun renderObject cast => ?_) fun _ => shown
    split
    · rename_i e held
      exact shown.update (listed id e held) (tidy renderObject cast e held)
    · exact Ends.pure shown
  apply (shows.both (emit_evolves shown.painted.wf listeners id value now)).mono
  · exact fun _ _ after => after
  · exact fun _ _ thrown => thrown.1

theorem Shown.emitAll {listeners : LinkedMap String Nat} (entries : List (String × Json)) (clock : Nat → Int) (s : Store)
    (shown : Shown s) (listed : ∀ id e, listeners.get? id = some e → e ∈ s.scheduled)
    (tidy : TidyAll listeners entries clock s) :
    Ends (Render.emitAll listeners entries clock) s (fun _ t => Shown t) fun _ t => Shown t := by
  induction entries generalizing clock s with
  | nil => exact Ends.pure shown
  | cons entry rest ih =>
    obtain ⟨id, value⟩ := entry
    obtain ⟨here, later⟩ := tidy
    have first := shown.emit listed here
    apply Ends.bind
    unfold Ends at first ⊢
    cases result : Render.emit listeners id value (clock 0) s with
    | error fault t =>
      simp only [result] at first
      exact first
    | ok value t =>
      simp only [result] at first later
      obtain ⟨after, evolves⟩ := first
      exact ih _ t after (fun id e held => evolves.tasks.subset (listed id e held)) later

end Updates

section Runs

namespace World

structure Shows (w : World) : Prop where
  shown : Shown w.store
  listed : ∀ root id e, (w.listeners root).get? id = some e → e ∈ w.store.scheduled

variable {w : World}

theorem Shows.mount (shows : w.Shows) (page : String) (payload : Json) : (w.mount page payload).Shows := by
  have wf := shows.shown.painted.wf
  have ends := (rootElement_ends payload (channelName page) w.store wf).both
    ((rootElement_mirrors payload (channelName page) wf shows.shown.mirrored).both
      (rootElement_types payload (channelName page) w.store))
  unfold World.mount
  split
  · exact shows
  · split
    · rename_i root s made
      obtain ⟨⟨built, _⟩, mirrored, types⟩ := ends.ok made
      exact ⟨shows.shown.grow built.grown built.wf mirrored types, fun root id e held =>
        built.grown.tasks.subset (shows.listed root id e held)⟩
    · rename_i fault s failed
      obtain ⟨⟨grown, wf', _⟩, mirrored, types⟩ := ends.error failed
      exact ⟨shows.shown.grow grown wf' mirrored types, fun root id e held =>
        grown.tasks.subset (shows.listed root id e held)⟩

theorem Shows.update (shows : w.Shows) {page : String} {data : Json} {clock : Nat → Int}
    (tidy : w.Tidy (.update page data clock)) : (w.update page data clock).Shows := by
  obtain ⟨evolves, _, listeners, _⟩ := update_store shows.shown.painted.wf page data clock
  refine ⟨?_, fun root id e held => ?_⟩
  · unfold World.update
    split
    · rename_i entries root accepted mounted
      exact Ends.final (Shown.emitAll entries.entries clock w.store shows.shown (shows.listed root)
        (tidy entries accepted root mounted))
    · exact shows.shown
  · rw [listeners] at held
    exact evolves.tasks.subset (shows.listed root id e held)

theorem Shows.task (shows : w.Shows) : w.task.Shows := by
  obtain ⟨_, same⟩ | ⟨e, listeners, next, _, same, get⟩ := task_cases w
  · rw [same]
    exact shows
  · rw [same]
    refine ⟨shows.shown, fun root id a held => ?_⟩
    rw [get] at held
    split at held
    · cases held
      exact List.mem_of_getElem? next
    · exact shows.listed root id a held

theorem Shows.frameOp (shows : w.Shows) (op : FrameOp) : (w.frameOp op).Shows := by
  have after : { w with store := w.store.frameOp op }.Shows := by
    refine ⟨shows.shown.frameOp op, fun root id e held => ?_⟩
    rw [frameOp_scheduled]
    exact shows.listed root id e held
  unfold World.frameOp
  split
  · split
    · rename_i e _
      obtain ⟨listeners, same, get⟩ := deregister_spec { w with store := w.store.frameOp (.detach e) } e
      rw [same]
      refine ⟨after.shown, fun root id a held => ?_⟩
      rw [get] at held
      split at held
      · cases held
      · exact after.listed root id a held
    · exact after
  · exact after

theorem Shows.frame (shows : w.Shows) (ops : List FrameOp) : (w.frame ops).Shows := by
  have folded := Run.final_always World.frameOp Shows (fun _ op shows => shows.frameOp op) ops w shows
  exact ⟨folded.shown, folded.listed⟩

theorem frame_store (w : World) (ops : List FrameOp) : (w.frame ops).store = ops.foldl Store.frameOp w.store := by
  show (ops.foldl World.frameOp w).store = _
  induction ops generalizing w with
  | nil => rfl
  | cons op rest ih =>
    rw [List.foldl_cons, List.foldl_cons, ih, (frameOp_rest w op).1]

theorem Shows.step (shows : w.Shows) (event : Event) (tidy : w.Tidy event) : (w.step event).Shows := by
  cases event with
  | mount page payload => exact shows.mount page payload
  | update page data clock => exact shows.update tidy
  | task => exact shows.task
  | frame ops => exact shows.frame ops

theorem run_shows {events : List Event} (tidy : Run.Along step World.Tidy {} events) (w : World)
    (member : w ∈ Run.states step {} events) : w.Shows := by
  have initial : ({} : World).Shows :=
    ⟨⟨⟨empty_wellFormed, by simp⟩, ⟨by simp, by simp⟩, by simp [Typed]⟩, fun _ _ _ held => by cases held⟩
  exact Run.invariant step World.Tidy Shows (fun _ event shows tidy => shows.step event tidy) events {} initial tidy w member

/-- Whatever pages, messages, tasks and frames came before: where a frame is over, each
    mounted builder shows the document of its element. -/
theorem screen_shows_document (dart : Library) (events : List Event) (tidy : Run.Along step World.Tidy {} events) :
    ∀ w ∈ Run.states step {} events, Complete dart w.store → ∀ a ∈ w.store.builders.map Builder.element,
      screenAt dart w.store a = render dart (doc w.store.heap a) := by
  intro w member complete a mounted
  exact (run_shows tidy w member).shown.screen_document complete a mounted

def boardLibrary : Library where
  doubleParse value := if value = "10" then some (Float64.ofNat 10) else none
  toString value := value.asString.getD ""

def boardText (id : String) : Json :=
  .map [("id", .string id), ("tag", .string "text"), ("props", .map [("text", .string id)])]

def boardPage : Json :=
  .map [("id", .string "page"), ("tag", .string "scaffold"),
    ("children", .list [.map [("id", .string "box"), ("tag", .string "container"),
      ("props", .map [("width", .string "10")]), ("children", .list [boardText "hello"])]]),
    ("floating-action-button-fragment", .map [("id", .string "slot"), ("tag", .string "floating-action-button-fragment"),
      ("children", .list [boardText "add"])])]

def boardEvents : List Event :=
  [.mount "page" boardPage, .task, .task, .task, .task, .task, .task, .frame [.attach 1, .attach 2, .attach 3, .attach 5],
    .update "page" (.map [("slot", .map [("children", .list [boardText "save"])])]) fun _ => 7, .task,
    .frame [.build 1, .detach 5, .attach 6]]

theorem screen_shows_document_board : (run boardEvents).store.builders.map Builder.element = [1, 2, 3, 6] ∧
    ∀ a ∈ [1, 2, 3, 6], screenAt boardLibrary (run boardEvents).store a =
      render boardLibrary (doc (run boardEvents).store.heap a) := by
  have mounts : (run boardEvents).store.builders.map Builder.element = [1, 2, 3, 6] := by decide +kernel
  refine ⟨mounts, ?_⟩
  rw [← mounts]
  exact screen_shows_document boardLibrary boardEvents (by decide +kernel) (run boardEvents) (Run.final_mem_states _ _)
    (by decide +kernel)

end World

end Runs

end Sano.Render
