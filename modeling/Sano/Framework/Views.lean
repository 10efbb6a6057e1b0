import Sano.Framework.Bridge

namespace Sano.Framework.Views

section Model

variable {α ρ : Type}

inductive Handler where
  | mount (view : Nat)
  | update (view : Nat)
deriving DecidableEq

structure ViewState (ρ : Type) where
  id : String
  root : Option ρ
deriving DecidableEq

structure Update (α ρ : Type) where
  root : Option ρ
  args : α
deriving DecidableEq

structure State (α ρ : Type) where
  bridge : Bridge.State Handler := {}
  views : List (ViewState ρ) := []
  updates : List (Update α ρ) := []

/-- What the script does inside an `invoke` comes as messages after the `initState`
    and before the `dispose` that made it. -/
inductive Event (α : Type) where
  | initState (id : String)
  | message (method : String) (args : α)
  | dispose (id : String) (thrown : Bool)
deriving DecidableEq

def mountKey (id : String) : String := getMethod id "mount"

def updateKey (id : String) : String := getMethod id "update"

def initState (s : State α ρ) (id : String) : State α ρ :=
  { s with
    bridge := Bridge.step (Bridge.step s.bridge (.once (mountKey id) (.mount s.views.length)))
      (.on (updateKey id) (.update s.views.length))
    views := s.views ++ [⟨id, none⟩] }

def mount (rootOf : α → Option ρ) (args : α) (view : ViewState ρ) : ViewState ρ :=
  match rootOf args with
  | some root => { view with root := some root }
  | none => view

def emitted (root : Option ρ) (ids : List String) : Option (List (ρ × String)) :=
  ids.mapM fun id => root.map fun root => (root, id)

def handle (rootOf : α → Option ρ) (s : State α ρ) (args : α) : Handler → State α ρ
  | .mount view => { s with views := s.views.modify view (mount rootOf args) }
  | .update view => { s with updates := s.updates ++ [⟨(s.views[view]?).bind ViewState.root, args⟩] }

def found (s : State α ρ) (method : String) : Option Handler :=
  if method = Bridge.reserved then none else (s.bridge.listeners.get? method).map Bridge.Listener.handle

def message (rootOf : α → Option ρ) (s : State α ρ) (method : String) (args : α) : State α ρ :=
  match found s method with
  | some handler =>
    handle rootOf { s with bridge := Bridge.step (Bridge.step s.bridge (.dispatch method)) (.finish false) } args handler
  | none => { s with bridge := Bridge.step s.bridge (.dispatch method) }

def step (rootOf : α → Option ρ) (s : State α ρ) : Event α → State α ρ
  | .initState id => initState s id
  | .message method args => message rootOf s method args
  | .dispose id thrown => if thrown then s else { s with bridge := Bridge.step s.bridge (.dispose id) }

end Model

section Keys

theorem getMethod_left_inj {a b method : String} (same : getMethod a method = getMethod b method) : a = b := by
  have texts := congrArg String.toList same
  rw [getMethod_toList, getMethod_toList] at texts
  have names := List.append_cancel_right (List.append_cancel_left texts)
  rw [String.toList_append, String.toList_append] at names
  exact String.toList_injective (List.append_cancel_right names)

theorem mountKey_ne_updateKey (a b : String) : mountKey a ≠ updateKey b := by
  intro same
  have last := congrArg (fun text => text.toList.getLast?) same
  simp [mountKey, updateKey, getMethod, List.getLast?_append] at last

theorem getMethod_ne_reserved (id method : String) : getMethod id method ≠ Bridge.reserved := by
  intro same
  have first := congrArg (fun text => text.toList.head?) same
  simp [getMethod_toList, Bridge.reserved] at first

def Reaches (name id : String) : Prop := (name ++ ":").toList <+: (id ++ ":").toList

theorem begins_iff_reaches {name id method : String} (plain : ':' ∉ method.toList) :
    beginsWith (getMethod id method) (channelName name) = true ↔ Reaches name id := by
  rw [beginsWith_iff]
  constructor
  · intro begins
    rcases List.prefix_or_prefix_of_prefix begins (List.prefix_append _ _) with inside | ⟨rest, split⟩
    · exact inside
    · -- the colon that ends the name would stand in the method
      rw [← split, List.prefix_append_right_inj] at begins
      rcases List.eq_nil_or_concat rest with rfl | ⟨start, last, rfl⟩
      · simp only [Reaches, ← split, List.append_nil, List.prefix_rfl]
      · have ends := congrArg List.getLast? split
        simp only [List.concat_eq_append, String.toList_append, ← List.append_assoc, List.getLast?_append,
          List.getLast?_singleton, Option.some_or] at ends
        have colon : last = ':' := by simpa using ends
        exact absurd (begins.subset (by simp [colon])) plain
  · exact fun inside => inside.trans (List.prefix_append _ _)

end Keys

section History

variable {α ρ : Type} (rootOf : α → Option ρ)

def Closes (id : String) : Event α → Prop
  | .dispose name thrown => thrown = false ∧ Reaches name id
  | _ => False

def Listening (history : List (Event α)) (id : String) : Prop :=
  Run.Stands (fun _ event => event = .initState id) (Closes id) history

def Waiting (history : List (Event α)) (id : String) : Prop :=
  Run.Stands (fun _ event => event = .initState id) (fun event => Closes id event ∨ ∃ args, event = .message (mountKey id) args)
    history

def Mounted (history : List (Event α)) (id : String) : Prop :=
  Run.Stands (fun before event => ∃ args, event = .message (mountKey id) args ∧ rootOf args ≠ none ∧ Waiting before id)
    (fun event => event = .initState id) history

def MountsFirst (events : List (Event α)) : Prop :=
  Run.Each (fun before event => ∀ id args, event = .message (updateKey id) args → Listening before id →
    Mounted rootOf before id) events

structure Wired (history : List (Event α)) (s : State α ρ) : Prop where
  table : Bridge.Sound s.bridge
  once : ∀ key listener, s.bridge.listeners.get? key = some listener →
    (listener.once ≠ none ↔ ∃ view, listener.handle = .mount view)
  mount : ∀ key view, found s key = some (.mount view) →
    ∃ id, key = mountKey id ∧ found s (updateKey id) = some (.update view)
  update : ∀ key view, found s key = some (.update view) →
    ∃ opened, s.views[view]? = some opened ∧ key = updateKey opened.id ∧
      (opened.root ≠ none ↔ Mounted rootOf history opened.id)
  waiting : ∀ id, found s (mountKey id) ≠ none ↔ Waiting history id
  listening : ∀ id, found s (updateKey id) ≠ none ↔ Listening history id

theorem listening_snoc_iff (history : List (Event α)) (event : Event α) (id : String) :
    Listening (history ++ [event]) id ↔ event = .initState id ∨ ¬ Closes id event ∧ Listening history id :=
  Run.stands_snoc_iff _ _ _ _

theorem waiting_snoc_iff (history : List (Event α)) (event : Event α) (id : String) :
    Waiting (history ++ [event]) id ↔
      event = .initState id ∨
        ¬ (Closes id event ∨ ∃ args, event = .message (mountKey id) args) ∧ Waiting history id :=
  Run.stands_snoc_iff _ _ _ _

theorem mounted_snoc_iff (history : List (Event α)) (event : Event α) (id : String) :
    Mounted rootOf (history ++ [event]) id ↔
      (∃ args, event = .message (mountKey id) args ∧ rootOf args ≠ none ∧ Waiting history id) ∨
        ¬ event = .initState id ∧ Mounted rootOf history id :=
  Run.stands_snoc_iff _ _ _ _

variable {rootOf}

theorem found_initState (s : State α ρ) (id key : String) :
    found (initState s id) key =
      if updateKey id = key then some (.update s.views.length)
      else if mountKey id = key then some (.mount s.views.length) else found s key := by
  by_cases special : key = Bridge.reserved
  · have updates : updateKey id ≠ key := fun same => getMethod_ne_reserved _ _ (same.trans special)
    have mounts : mountKey id ≠ key := fun same => getMethod_ne_reserved _ _ (same.trans special)
    rw [if_neg updates, if_neg mounts, found, found, if_pos special, if_pos special]
  · simp only [found, special, if_false, initState, Bridge.step, LinkedMap.get?_insert]
    split
    · rfl
    · split <;> rfl

theorem found_dispose (s : State α ρ) (name key : String) :
    found { s with bridge := Bridge.step s.bridge (.dispose name) } key =
      if beginsWith key (channelName name) then none else found s key := by
  simp only [found, Bridge.step, dispose_get]
  split
  · simp
  · split <;> simp

theorem found_listener {s : State α ρ} {key : String} {handler : Handler} (there : found s key = some handler) :
    key ≠ Bridge.reserved ∧ ∃ listener, s.bridge.listeners.get? key = some listener ∧ listener.handle = handler := by
  unfold found at there
  split at there
  · cases there
  next ordinary =>
    rcases Option.map_eq_some_iff.mp there with ⟨listener, stored, handles⟩
    exact ⟨ordinary, listener, stored, handles⟩

theorem found_eq_map {s : State α ρ} {method : String} (ordinary : method ≠ Bridge.reserved) :
    found s method = (s.bridge.listeners.get? method).map Bridge.Listener.handle := if_neg ordinary

theorem bridge_handle (s : State α ρ) (args : α) (handler : Handler) : (handle rootOf s args handler).bridge = s.bridge := by
  cases handler <;> rfl

theorem bridge_message_listeners (s : State α ρ) (method : String) (args : α) :
    (message rootOf s method args).bridge.listeners = (Bridge.step s.bridge (.dispatch method)).listeners := by
  unfold message
  split
  · rw [bridge_handle]
    rfl
  · rfl

theorem sound_message {s : State α ρ} (sound : Bridge.Sound s.bridge) (method : String) (args : α) :
    Bridge.Sound (message rootOf s method args).bridge := by
  unfold message
  split
  · rw [bridge_handle]
    exact (sound.step (.dispatch method)).step (.finish false)
  · exact sound.step (.dispatch method)

theorem Wired.get_message_iff {history : List (Event α)} {s : State α ρ} (wired : Wired rootOf history s) (method : String)
    (args : α) (key : String) (listener : Bridge.Listener Handler) :
    (message rootOf s method args).bridge.listeners.get? key = some listener ↔
      ¬ (method = key ∧ ∃ view, found s method = some (.mount view)) ∧ s.bridge.listeners.get? key = some listener := by
  rw [bridge_message_listeners, Bridge.step_get_iff wired.table]
  simp only [Bridge.Registers, Bridge.Ends, false_or]
  constructor
  · rintro ⟨kept, stored⟩
    refine ⟨?_, stored⟩
    rintro ⟨rfl, view, mounts⟩
    rcases found_listener mounts with ⟨ordinary, other, there, handles⟩
    rw [stored] at there
    cases there
    exact kept ⟨rfl, ordinary, (wired.once _ _ stored).mpr ⟨view, handles⟩⟩
  · rintro ⟨kept, stored⟩
    refine ⟨?_, stored⟩
    rintro ⟨rfl, ordinary, once⟩
    rcases (wired.once _ _ stored).mp once with ⟨view, handles⟩
    exact kept ⟨rfl, view, by rw [found_eq_map ordinary, stored, Option.map_some, handles]⟩

theorem Wired.found_message {history : List (Event α)} {s : State α ρ} (wired : Wired rootOf history s) (method : String)
    (args : α) (key : String) (handler : Handler) :
    found (message rootOf s method args) key = some handler ↔
      ¬ (method = key ∧ ∃ view, found s method = some (.mount view)) ∧ found s key = some handler := by
  constructor
  · intro there
    rcases found_listener there with ⟨ordinary, listener, stored, handles⟩
    rcases (wired.get_message_iff method args key listener).mp stored with ⟨kept, before⟩
    exact ⟨kept, by rw [found_eq_map ordinary, before, Option.map_some, handles]⟩
  · rintro ⟨kept, before⟩
    rcases found_listener before with ⟨ordinary, listener, stored, handles⟩
    have after := (wired.get_message_iff method args key listener).mpr ⟨kept, stored⟩
    rw [found_eq_map ordinary, after, Option.map_some, handles]

theorem Wired.initial : Wired rootOf [] ({} : State α ρ) where
  table := Bridge.run_sound []
  once _ _ stored := by cases stored
  mount key view there := by
    rcases found_listener there with ⟨_, listener, stored, _⟩
    cases stored
  update key view there := by
    rcases found_listener there with ⟨_, listener, stored, _⟩
    cases stored
  waiting id := by simp [found, Waiting, Run.not_stands_nil]
  listening id := by simp [found, Listening, Run.not_stands_nil]

theorem Wired.initState {history : List (Event α)} {s : State α ρ} (wired : Wired rootOf history s) (id : String) :
    Wired rootOf (history ++ [.initState id]) (initState s id) where
  table := (wired.table.step (.once (mountKey id) _)).step (.on (updateKey id) _)
  once := by
    intro key listener stored
    simp only [Views.initState, Bridge.step, LinkedMap.get?_insert] at stored
    split at stored
    · cases stored
      simp
    · split at stored
      · cases stored
        simp
      · exact wired.once key listener stored
  mount := by
    intro key view there
    rw [found_initState] at there
    split at there
    · cases there
    · split at there
      next same =>
        cases there
        exact ⟨id, same.symm, by simp [found_initState]⟩
      next other =>
        rcases wired.mount key view there with ⟨own, rfl, updates⟩
        refine ⟨own, rfl, ?_⟩
        have different : updateKey id ≠ updateKey own := fun same => other (by rw [getMethod_left_inj same])
        rw [found_initState, if_neg different, if_neg (mountKey_ne_updateKey _ _), updates]
  update := by
    intro key view there
    rw [found_initState] at there
    split at there
    next same =>
      cases there
      refine ⟨⟨id, none⟩, by simp [Views.initState], same.symm, ?_⟩
      simp [mounted_snoc_iff]
    next other =>
      split at there
      · cases there
      · rcases wired.update key view there with ⟨opened, stored, rfl, rooted⟩
        refine ⟨opened, ?_, rfl, ?_⟩
        · exact (List.getElem?_append_left (List.getElem?_eq_some_iff.mp stored).1).trans stored
        · have different : id ≠ opened.id := fun same => other (by rw [same])
          simp [mounted_snoc_iff, rooted, different]
  waiting := by
    intro own
    rw [found_initState, if_neg (mountKey_ne_updateKey _ _).symm, waiting_snoc_iff, ← wired.waiting]
    by_cases same : id = own
    · simp [same]
    · have different : mountKey id ≠ mountKey own := fun equal => same (getMethod_left_inj equal)
      simp [same, different, Closes]
  listening := by
    intro own
    rw [found_initState, listening_snoc_iff, ← wired.listening]
    by_cases same : id = own
    · simp [same]
    · have different : updateKey id ≠ updateKey own := fun equal => same (getMethod_left_inj equal)
      simp [same, different, mountKey_ne_updateKey, Closes]

theorem mount_plain : ':' ∉ "mount".toList := by decide

theorem update_plain : ':' ∉ "update".toList := by decide

theorem Wired.dispose {history : List (Event α)} {s : State α ρ} (wired : Wired rootOf history s) (name : String) :
    Wired rootOf (history ++ [.dispose name false]) { s with bridge := Bridge.step s.bridge (.dispose name) } where
  table := wired.table.step (.dispose name)
  once := by
    intro key listener stored
    simp only [Bridge.step, dispose_get] at stored
    split at stored
    · cases stored
    · exact wired.once key listener stored
  mount := by
    intro key view there
    rw [found_dispose] at there
    split at there
    · cases there
    next kept =>
      rcases wired.mount key view there with ⟨id, rfl, updates⟩
      refine ⟨id, rfl, ?_⟩
      rw [mountKey, begins_iff_reaches mount_plain, ← begins_iff_reaches update_plain] at kept
      rw [found_dispose, updateKey, if_neg kept, ← updateKey, updates]
  update := by
    intro key view there
    rw [found_dispose] at there
    split at there
    · cases there
    · rcases wired.update key view there with ⟨opened, stored, named, rooted⟩
      refine ⟨opened, stored, named, ?_⟩
      simp [mounted_snoc_iff, rooted]
  waiting := by
    intro id
    rw [found_dispose, waiting_snoc_iff, ← wired.waiting, mountKey]
    by_cases reached : Reaches name id
    · simp [(begins_iff_reaches mount_plain).mpr reached, Closes, reached]
    · simp [mt (begins_iff_reaches mount_plain).mp reached, Closes, reached]
  listening := by
    intro id
    rw [found_dispose, listening_snoc_iff, ← wired.listening, updateKey]
    by_cases reached : Reaches name id
    · simp [(begins_iff_reaches update_plain).mpr reached, Closes, reached]
    · simp [mt (begins_iff_reaches update_plain).mp reached, Closes, reached]

theorem Wired.thrown {history : List (Event α)} {s : State α ρ} (wired : Wired rootOf history s) (name : String) :
    Wired rootOf (history ++ [.dispose name true]) s where
  table := wired.table
  once := wired.once
  mount := wired.mount
  update key view there := by simpa [mounted_snoc_iff] using wired.update key view there
  waiting id := by simp [waiting_snoc_iff, wired.waiting, Closes]
  listening id := by simp [listening_snoc_iff, wired.listening, Closes]

theorem Wired.waiting_iff_mount {history : List (Event α)} {s : State α ρ} (wired : Wired rootOf history s) (id : String) :
    Waiting history id ↔ ∃ view, found s (mountKey id) = some (.mount view) := by
  rw [← wired.waiting]
  constructor
  · intro there
    rcases Option.ne_none_iff_exists'.mp there with ⟨handler, stored⟩
    cases handler with
    | mount view => exact ⟨view, stored⟩
    | update view =>
      rcases wired.update _ view stored with ⟨opened, _, same, _⟩
      exact absurd same (mountKey_ne_updateKey _ _)
  · rintro ⟨view, stored⟩
    simp [stored]

theorem mount_id (args : α) (view : ViewState ρ) : (mount rootOf args view).id = view.id := by
  unfold mount
  split <;> rfl

theorem mount_root (args : α) (view : ViewState ρ) :
    (mount rootOf args view).root ≠ none ↔ rootOf args ≠ none ∨ view.root ≠ none := by
  unfold mount
  cases rootOf args <;> simp

theorem views_message_of_mount {s : State α ρ} {method : String} {view : Nat} (args : α)
    (mounts : found s method = some (.mount view)) :
    (message rootOf s method args).views = s.views.modify view (mount rootOf args) := by
  simp [message, mounts, handle]

theorem views_message_of_not_mount {s : State α ρ} {method : String} (args : α)
    (other : ¬ ∃ view, found s method = some (.mount view)) : (message rootOf s method args).views = s.views := by
  unfold message
  split
  next handler there =>
    cases handler with
    | mount view => exact absurd ⟨view, there⟩ other
    | update view => rfl
  next => rfl

theorem Wired.update_of_mount {history : List (Event α)} {s : State α ρ} (wired : Wired rootOf history s) {method : String}
    {mounted : Nat} (args : α) (mounts : found s method = some (.mount mounted)) {key : String} {view : Nat}
    (there : found s key = some (.update view)) :
    ∃ opened, (message rootOf s method args).views[view]? = some opened ∧ key = updateKey opened.id ∧
      (opened.root ≠ none ↔ Mounted rootOf (history ++ [.message method args]) opened.id) := by
  rcases wired.mount method mounted mounts with ⟨id, rfl, updates⟩
  rcases wired.update key view there with ⟨opened, stored, rfl, rooted⟩
  rcases wired.update _ mounted updates with ⟨target, stored', same, _⟩
  have own : id = target.id := getMethod_left_inj same
  rw [views_message_of_mount args mounts]
  by_cases here : mounted = view
  · subst here
    rw [stored] at stored'
    cases stored'
    refine ⟨Views.mount rootOf args opened, by simp [stored], by rw [mount_id], ?_⟩
    have waits : Waiting history opened.id := own ▸ (wired.waiting_iff_mount id).mpr ⟨mounted, mounts⟩
    simp [mount_root, mount_id, mounted_snoc_iff, own, waits, rooted]
  · refine ⟨opened, by simp [here, stored], rfl, ?_⟩
    have different : mountKey id ≠ mountKey opened.id := by
      intro equal
      rw [getMethod_left_inj equal, there] at updates
      cases updates
      exact here rfl
    simp [mounted_snoc_iff, different, rooted]

theorem Wired.update_of_not_mount {history : List (Event α)} {s : State α ρ} (wired : Wired rootOf history s)
    {method : String} (args : α) (other : ¬ ∃ view, found s method = some (.mount view)) {key : String} {view : Nat}
    (there : found s key = some (.update view)) :
    ∃ opened, (message rootOf s method args).views[view]? = some opened ∧ key = updateKey opened.id ∧
      (opened.root ≠ none ↔ Mounted rootOf (history ++ [.message method args]) opened.id) := by
  rcases wired.update key view there with ⟨opened, stored, rfl, rooted⟩
  rw [views_message_of_not_mount args other]
  refine ⟨opened, stored, rfl, ?_⟩
  rw [mounted_snoc_iff, rooted]
  constructor
  · exact fun before => .inr ⟨by simp, before⟩
  · rintro (⟨sent, same, _, waits⟩ | before)
    · cases same
      exact absurd ((wired.waiting_iff_mount _).mp waits) other
    · exact before.2

theorem Wired.message {history : List (Event α)} {s : State α ρ} (wired : Wired rootOf history s) (method : String)
    (args : α) : Wired rootOf (history ++ [.message method args]) (message rootOf s method args) where
  table := sound_message wired.table method args
  once := by
    intro key listener stored
    exact wired.once key listener ((wired.get_message_iff method args key listener).mp stored).2
  mount := by
    intro key view there
    rcases (wired.found_message method args key _).mp there with ⟨kept, before⟩
    rcases wired.mount key view before with ⟨id, rfl, updates⟩
    refine ⟨id, rfl, (wired.found_message method args _ _).mpr ⟨?_, updates⟩⟩
    rintro ⟨rfl, other, mounts⟩
    rw [updates] at mounts
    cases mounts
  update := by
    intro key view there
    have before := ((wired.found_message method args key _).mp there).2
    by_cases mounts : ∃ mounted, found s method = some (.mount mounted)
    · rcases mounts with ⟨mounted, mounts⟩
      exact wired.update_of_mount args mounts before
    · exact wired.update_of_not_mount args mounts before
  waiting := by
    intro id
    rw [waiting_snoc_iff, Option.ne_none_iff_exists']
    simp only [wired.found_message, reduceCtorEq, false_or, Closes]
    by_cases same : method = mountKey id
    · subst same
      constructor
      · rintro ⟨handler, kept, there⟩
        have waits := (wired.waiting id).mp (by simp [there])
        exact absurd ⟨rfl, (wired.waiting_iff_mount id).mp waits⟩ kept
      · rintro ⟨kept, _⟩
        exact absurd ⟨args, rfl⟩ kept
    · simp [same, ← wired.waiting, Option.ne_none_iff_exists']
  listening := by
    intro id
    rw [listening_snoc_iff, Option.ne_none_iff_exists']
    simp only [wired.found_message, reduceCtorEq, false_or, Closes, not_false_eq_true, true_and, ← wired.listening,
      Option.ne_none_iff_exists']
    constructor
    · rintro ⟨handler, _, there⟩
      exact ⟨handler, there⟩
    · rintro ⟨handler, there⟩
      refine ⟨handler, ?_, there⟩
      rintro ⟨rfl, view, mounts⟩
      rcases wired.mount _ view mounts with ⟨other, same, _⟩
      exact absurd same (mountKey_ne_updateKey _ _).symm

theorem Wired.step {history : List (Event α)} {s : State α ρ} (wired : Wired rootOf history s) (event : Event α) :
    Wired rootOf (history ++ [event]) (step rootOf s event) := by
  cases event with
  | initState id => exact wired.initState id
  | message method args => exact wired.message method args
  | dispose id thrown =>
    cases thrown with
    | true => exact wired.thrown id
    | false => exact wired.dispose id

theorem run_wired (history : List (Event α)) : Wired rootOf history (Run.final (step rootOf) {} history) := by
  induction history using List.reverseRecOn with
  | nil => exact Wired.initial
  | append_singleton history event ih =>
    rw [Run.final_snoc]
    exact ih.step event

theorem Wired.updates_step {history : List (Event α)} {s : State α ρ} (wired : Wired rootOf history s) (event : Event α) :
    (∀ handled ∈ (Views.step rootOf s event).updates, handled.root ≠ none) ↔
      (∀ handled ∈ s.updates, handled.root ≠ none) ∧
        ∀ id args, event = .message (updateKey id) args → Listening history id → Mounted rootOf history id := by
  cases event with
  | initState id => simp [Views.step, Views.initState]
  | dispose id thrown => cases thrown <;> simp [Views.step]
  | message method args =>
    simp only [Views.step, Views.message]
    cases there : found s method with
    | none =>
      simp only [Event.message.injEq, and_imp, iff_self_and]
      rintro _ id _ rfl _ listens
      exact absurd there ((wired.listening id).mpr listens)
    | some handler =>
      cases handler with
      | mount view =>
        simp only [handle, Event.message.injEq, and_imp, iff_self_and]
        rintro _ id _ rfl _ _
        rcases wired.mount _ view there with ⟨other, same, _⟩
        exact absurd same (mountKey_ne_updateKey _ _).symm
      | update view =>
        rcases wired.update _ view there with ⟨opened, stored, rfl, rooted⟩
        have listens : Listening history opened.id := (wired.listening _).mp (by simp [there])
        have runs : (∀ handled ∈ s.updates ++ [⟨opened.root, args⟩], handled.root ≠ none) ↔
            (∀ handled ∈ s.updates, handled.root ≠ none) ∧ Mounted rootOf history opened.id := by
          rw [← rooted]
          simp [or_imp, forall_and]
        simp only [handle, stored, Option.bind_some]
        rw [runs]
        refine and_congr_right fun _ => ?_
        constructor
        · intro mounted id sent same _
          rw [← getMethod_left_inj (Event.message.inj same).1]
          exact mounted
        · exact fun mounts => mounts opened.id args rfl listens

theorem emitted_ne_none_iff (root : Option ρ) : (∀ ids, emitted root ids ≠ none) ↔ root ≠ none := by
  cases root with
  | none => simpa using ⟨[""], rfl⟩
  | some root =>
    simp only [ne_eq, reduceCtorEq, not_false_eq_true, iff_true]
    intro ids
    induction ids with
    | nil => simp [emitted]
    | cons id ids ih =>
      rcases Option.ne_none_iff_exists'.mp ih with ⟨rest, sent⟩
      simp only [emitted, Option.map_some] at sent
      simp [emitted, List.mapM_cons, sent]

/-- In a run every `_update` finds a root, and no `_root!` can fail in it, exactly
    when no update is sent to an open view before a mount that works. -/
theorem update_has_root_iff (events : List (Event α)) :
    (∀ handled ∈ (Run.final (step rootOf) {} events).updates,
      handled.root ≠ none ∧ ∀ ids, emitted handled.root ids ≠ none) ↔ MountsFirst rootOf events := by
  simp only [emitted_ne_none_iff, and_self]
  induction events using List.reverseRecOn with
  | nil => simp [Run.final, MountsFirst, Run.each_nil]
  | append_singleton events event ih =>
    rw [Run.final_snoc, MountsFirst, Run.each_snoc_iff, (run_wired events).updates_step, ih]
    rfl

/-- The script answers `invoke('mount')` with an update, before it sends a mount. -/
theorem update_before_mount :
    ¬ ∀ handled ∈ (Run.final (step (some : String → Option String)) {}
        [.initState "a", .message (updateKey "a") "", .message (mountKey "a") ""]).updates,
      handled.root ≠ none ∧ ∀ ids, emitted handled.root ids ≠ none := by
  simp only [emitted_ne_none_iff]
  decide +kernel

end History

end Sano.Framework.Views
