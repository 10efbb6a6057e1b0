import Sano.Render.Evolution

namespace Sano.Render

section Chains

inductive Climbs (heap : List Element) : Nat → Nat → Prop where
  | root {a : Nat} {el : Element} : heap[a]? = some el → el.kind = .root → Climbs heap a a
  | parent {a p r : Nat} {el : Element} : heap[a]? = some el → el.parent = some p → Climbs heap p r → Climbs heap a r

variable {s : Store}

theorem Climbs.rootOf (wf : WellFormed s) {a r : Nat} (climbs : Climbs s.heap a r) : rootOf s.heap a = some r := by
  induction climbs with
  | root found kind => exact rootOf_root found kind
  | parent found parent _ ih => rw [rootOf_child wf found parent, ih]

/-- The getter `root` ends at a root from every element, linked or not. -/
theorem climbs_total (wf : WellFormed s) (a : Nat) (bound : a < s.heap.length) : ∃ r, Climbs s.heap a r := by
  induction a using Nat.strongRecOn with
  | ind a ih =>
    rcases List.getElem?_eq_some_iff.mpr ⟨bound, rfl⟩ with found
    have sound := wf.sound a _ found
    cases parent : (s.heap[a]).parent with
    | none => exact ⟨a, .root found (sound.orphan.mpr parent)⟩
    | some p =>
      have lower := sound.parent p parent
      rcases ih p lower (Nat.lt_trans lower bound) with ⟨r, climbs⟩
      exact ⟨r, .parent found parent climbs⟩

theorem climbs_iff (wf : WellFormed s) (a r : Nat) : Climbs s.heap a r ↔ rootOf s.heap a = some r := by
  constructor
  · exact fun climbs => climbs.rootOf wf
  · intro reaches
    have bound : a < s.heap.length := by
      by_contra outside
      rw [rootOf_eq, rootStep, List.getElem?_eq_none (Nat.le_of_not_lt outside)] at reaches
      cases reaches
    rcases climbs_total wf a bound with ⟨other, climbs⟩
    rw [climbs.rootOf wf] at reaches
    cases reaches
    exact climbs

end Chains

section Touched

def Element.Reslotted (el el' : Element) : Prop :=
  ∃ widget value, el' = { el with floatingActionButton := widget, notifier := value }

theorem fill_notify_get {s : Store} {a : Nat} {el : Element} (found : s.heap[a]? = some el) (tag : String)
    (first : Option Nat) (value : Int) :
    ∃ el', ((s.fill a tag first).notify a value).heap[a]? = some el' ∧ el.Reslotted el' := by
  have filled : ∃ widget, (s.fill a tag first).heap[a]? = some { el with floatingActionButton := widget } := by
    unfold Store.fill
    split
    · exact ⟨first, modify_get_self _ found⟩
    · exact ⟨el.floatingActionButton, found⟩
  rcases filled with ⟨widget, held⟩
  unfold Store.notify
  split
  · exact ⟨_, held, widget, el.notifier, rfl⟩
  · exact ⟨_, modify_get_self _ held, widget, value, rfl⟩

variable {s : Store} {e : Nat} {el : Element}

def Spares (s u : Store) (e : Nat) (el : Element) : Prop :=
  ∀ (a : Nat) (held : Element), s.heap[a]? = some held → a ≠ e →
    u.heap[a]? = some held ∨
      el.kind = .fragment ∧ el.parent = some a ∧ ∃ held', u.heap[a]? = some held' ∧ held.Reslotted held'

theorem Edited.spares {t : Store} {change : Change} (edited : Edited s t e el change) : Spares s t e el := by
  intro a held there other
  have bound := (List.getElem?_eq_some_iff.mp there).1
  exact .inl ((edited.others a bound other).trans there)

theorem sanoUpdate_spares (wf : WellFormed s) (found : s.heap[e]? = some el) (renderObject : Object) (now : Int) :
    Ends (sanoUpdate e renderObject now) s (fun _ u => Spares s u e el) fun _ u => Spares s u e el := by
  apply (sanoUpdate_ends wf found renderObject now).mono
  · rintro _ u ⟨change, t, _, edited, rfl⟩ a held there other
    rw [notify_get_other now (Ne.symm other)]
    exact edited.spares a held there other
  · rintro _ t ⟨_, reached, edited⟩
    exact edited.spares

theorem fragmentUpdate_spares (wf : WellFormed s) (found : s.heap[e]? = some el) (fragment : el.kind = .fragment)
    (renderObject : Object) (now : Int) :
    Ends (fragmentUpdate e renderObject now) s (fun _ u => Spares s u e el) fun _ u => Spares s u e el := by
  apply (fragmentUpdate_ends wf found fragment renderObject now).mono
  · rintro _ u ⟨change, t, holder, kids, _, edited, parent, _, rfl⟩ a held there other
    have bound := (List.getElem?_eq_some_iff.mp there).1
    have kept := (edited.others a bound other).trans there
    by_cases same : holder = a
    · subst same
      exact .inr ⟨fragment, parent, fill_notify_get kept el.tag kids.head? now⟩
    · rw [notify_get_other now same, fill_get_other _ _ same]
      exact .inl kept
  · rintro _ t ⟨_, reached, edited⟩
    exact edited.spares

theorem update_spares (wf : WellFormed s) (found : s.heap[e]? = some el) (renderObject : Object) (now : Int) :
    Ends (update e renderObject now) s (fun _ u => Spares s u e el) fun _ u => Spares s u e el := by
  apply Ends.bind
  unfold Ends
  rw [show read e s = .ok el s by simp [read, found]]
  by_cases fragment : el.kind = .fragment
  · simp only [fragment, if_true]
    exact fragmentUpdate_spares wf found fragment renderObject now
  · simp only [fragment, if_false]
    exact sanoUpdate_spares wf found renderObject now

structure Routed (s u : Store) (listeners : LinkedMap String Nat) (root : Nat) (id : String) (a : Nat) (held : Element) :
    Prop where
  view : ¬ Climbs s.heap a root → u.heap[a]? = some held
  other : held.id ≠ id → u.heap[a]? = some held ∨
    ∃ e el, listeners.get? id = some e ∧ s.heap[e]? = some el ∧ el.kind = .fragment ∧ el.parent = some a ∧
      ∃ held', u.heap[a]? = some held' ∧ held.Reslotted held'

theorem emit_routed (wf : WellFormed s) {listeners : LinkedMap String Nat} {root : Nat}
    (own : ∀ id e, listeners.get? id = some e → ∃ el, s.heap[e]? = some el ∧ el.id = id ∧ Climbs s.heap e root)
    (id : String) (payload : Json) (now : Int) {a : Nat} {held : Element} (there : s.heap[a]? = some held) :
    Ends (emit listeners id payload now) s (fun _ u => Routed s u listeners root id a held)
      fun _ u => Routed s u listeners root id a held := by
  have same : Routed s s listeners root id a held := ⟨fun _ => there, fun _ => .inl there⟩
  apply ends_cast
  · intro renderObject _
    cases target : listeners.get? id with
    | none => exact same
    | some e =>
      rcases own id e target with ⟨el, found, named, climbs⟩
      have routed (u : Store) (spares : Spares s u e el) : Routed s u listeners root id a held := by
        constructor
        · intro outside
          have apart : a ≠ e := fun equal => outside (equal ▸ climbs)
          rcases spares a held there apart with kept | ⟨_, parent, _⟩
          · exact kept
          · -- the parent of an element is of its view
            have reaches := climbs.rootOf wf
            rw [rootOf_child wf found parent, ← climbs_iff wf] at reaches
            exact absurd reaches outside
        · intro different
          have apart : a ≠ e := by
            rintro rfl
            rw [found] at there
            cases there
            exact different named
          rcases spares a held there apart with kept | ⟨fragment, parent, slot⟩
          · exact .inl kept
          · exact .inr ⟨e, el, target, found, fragment, parent, slot⟩
      exact (update_spares wf found renderObject now).mono (fun _ => routed) fun _ => routed
  · exact fun _ => same

end Touched

section Runs

namespace World

/-- A new `SanoView` for a page whose view is gone: it has no root yet. The old root
    and its elements stay, and so do their tasks. -/
def reopen (w : World) (page : String) : World :=
  { w with roots := w.roots.remove page, mounted := w.mounted.filter (· ≠ page) }

inductive ViewEvent where
  | render (event : Event)
  | reopen (page : String)

def viewStep (w : World) : ViewEvent → World
  | .render event => w.step event
  | .reopen page => w.reopen page

theorem Sound.reopen {w : World} (sound : w.Sound) (page : String) : (w.reopen page).Sound := by
  refine ⟨sound.wf, sound.ran, sound.listeners, fun other root held => ?_⟩
  simp only [World.reopen, LinkedMap.get?_remove] at held
  split at held
  · cases held
  · exact sound.roots other root held

theorem Sound.viewStep {w : World} (sound : w.Sound) (event : ViewEvent) : (w.viewStep event).Sound := by
  cases event with
  | render event => exact sound.step event
  | reopen page => exact sound.reopen page

theorem views_sound (events : List ViewEvent) : (Run.final viewStep {} events).Sound :=
  Run.final_always viewStep Sound (fun _ event sound => sound.viewStep event) events {} start_sound

/-- Every listener is an element under its own id and of its own root, `root` never
    fails, and `emit` stays within the view and the id. -/
theorem updates_never_misrouted (events : List ViewEvent) :
    let w := Run.final viewStep {} events
    (∀ root id e, (w.listeners root).get? id = some e →
      ∃ el, w.store.heap[e]? = some el ∧ el.id = id ∧ Climbs w.store.heap e root) ∧
    (∀ a, a < w.store.heap.length → ∃ root, rootOf w.store.heap a = some root ∧ Climbs w.store.heap a root) ∧
    ∀ root id payload now a held, w.store.heap[a]? = some held →
      Routed w.store (finalState (emit (w.listeners root) id payload now w.store)) (w.listeners root) root id a held := by
  intro w
  have sound : w.Sound := views_sound events
  have own (root : Nat) (id : String) (e : Nat) (listens : (w.listeners root).get? id = some e) :
      ∃ el, w.store.heap[e]? = some el ∧ el.id = id ∧ Climbs w.store.heap e root := by
    rcases sound.listeners root id e listens with ⟨el, found, named, reaches⟩
    exact ⟨el, found, named, (climbs_iff sound.wf e root).mpr reaches⟩
  refine ⟨own, ?_, ?_⟩
  · intro a bound
    rcases climbs_total sound.wf a bound with ⟨root, climbs⟩
    exact ⟨root, climbs.rootOf sound.wf, climbs⟩
  · intro root id payload now a held there
    exact Ends.final (emit_routed sound.wf (own root) id payload now there)

end World

end Runs

end Sano.Render
