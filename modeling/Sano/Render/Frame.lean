import Sano.Base.Run
import Sano.Render.Refinement

namespace Sano.Render

section Frames

/-- What a frame does to one builder: `attach` mounts it and builds it, `detach`
    drops it, by unmounting it or by moving it to another notifier, and `build`
    runs it again. -/
inductive FrameOp where
  | attach (e : Nat)
  | detach (e : Nat)
  | build (e : Nat)

/-- A root stands for its child and the widget of a fragment is never asked for. -/
def Kind.mountable : Kind → Bool
  | .element => true
  | .scaffold => true
  | _ => false

def Store.attach (s : Store) (e : Nat) : Store :=
  match s.heap[e]? with
  | some el =>
    if el.kind.mountable then { s with builders := s.builders ++ [⟨e, false, el.snapshot⟩] } else s
  | none => s

def Store.detach (s : Store) (e : Nat) : Store :=
  { s with builders := s.builders.eraseP fun b => b.element = e }

def Store.build (s : Store) (e : Nat) : Store :=
  match s.heap[e]? with
  | some el =>
    { s with builders := s.builders.map fun b => if b.element = e then ⟨e, false, el.snapshot⟩ else b }
  | none => s

def Store.frameOp (s : Store) : FrameOp → Store
  | .attach e => s.attach e
  | .detach e => s.detach e
  | .build e => s.build e

theorem frameOp_heap (s : Store) (op : FrameOp) : (s.frameOp op).heap = s.heap := by
  cases op with
  | attach e =>
    simp only [Store.frameOp, Store.attach]
    split
    · split <;> rfl
    · rfl
  | detach e => rfl
  | build e =>
    simp only [Store.frameOp, Store.build]
    split <;> rfl

theorem frameOp_scheduled (s : Store) (op : FrameOp) : (s.frameOp op).scheduled = s.scheduled := by
  cases op with
  | attach e =>
    simp only [Store.frameOp, Store.attach]
    split
    · split <;> rfl
    · rfl
  | detach e => rfl
  | build e =>
    simp only [Store.frameOp, Store.build]
    split <;> rfl

theorem exists_builder {before after : List Builder} (same : after.map Builder.element = before.map Builder.element)
    {b : Builder} (member : b ∈ after) : ∃ c ∈ before, c.element = b.element := by
  have element : b.element ∈ before.map Builder.element := by
    rw [← same]
    exact List.mem_map_of_mem member
  exact List.mem_map.mp element

theorem attach_mounts (s : Store) (e a : Nat) (shown : a ∈ s.builders.map Builder.element) :
    a ∈ (s.attach e).builders.map Builder.element := by
  unfold Store.attach
  split
  · split
    · rw [List.map_append]
      exact List.mem_append_left _ shown
    · exact shown
  · exact shown

theorem build_mounts (s : Store) (e : Nat) :
    (s.build e).builders.map Builder.element = s.builders.map Builder.element := by
  unfold Store.build
  split
  · rw [List.map_map]
    refine List.map_congr_left fun b _ => ?_
    by_cases same : b.element = e
    · simp [same]
    · simp [same]
  · rfl

theorem detach_mounts (s : Store) {e a : Nat} (other : a ≠ e) (shown : a ∈ s.builders.map Builder.element) :
    a ∈ (s.detach e).builders.map Builder.element := by
  obtain ⟨b, member, rfl⟩ := List.mem_map.mp shown
  exact List.mem_map_of_mem ((List.mem_eraseP_of_neg (by simpa using other)).mpr member)

theorem mounts_bound (s : Store) (op : FrameOp) (bounds : ∀ b ∈ s.builders, b.element < s.heap.length) :
    ∀ b ∈ (s.frameOp op).builders, b.element < s.heap.length := by
  intro b member
  cases op with
  | attach e =>
    simp only [Store.frameOp, Store.attach] at member
    split at member
    · rename_i el found
      split at member
      · rcases List.mem_append.mp member with old | new
        · exact bounds b old
        · rw [List.mem_singleton.mp new]
          exact (List.getElem?_eq_some_iff.mp found).1
      · exact bounds b member
    · exact bounds b member
  | detach e => exact bounds b (List.mem_of_mem_eraseP member)
  | build e =>
    obtain ⟨before, there, same⟩ := exists_builder (build_mounts s e) member
    rw [← same]
    exact bounds before there

theorem WellFormed.congr {s t : Store} (wf : WellFormed s) (heap : t.heap = s.heap)
    (scheduled : t.scheduled = s.scheduled) : WellFormed t where
  sound a el found := by
    rw [heap] at found
    apply (wf.sound a el found).mono
    · intro b c held
      exact ⟨c, by rw [heap, held], rfl, rfl⟩
    · rw [scheduled]
      exact fun _ task => task
  scheduled := by
    rw [heap, scheduled]
    exact wf.scheduled

inductive Act where
  | update (e : Nat) (renderObject : Object) (now : Int)
  | frame (ops : List FrameOp)

def act (s : Store) : Act → Store
  | .update e renderObject now => finalState (update e renderObject now s)
  | .frame ops => ops.foldl Store.frameOp s

end Frames

section Repaint

def Marked (s : Store) (e : Nat) : Prop := ∀ b ∈ s.builders, b.element = e → b.dirty = true

def Signals (s : Store) (e : Nat) (now : Int) : Prop :=
  Marked s e ∨ ∀ el, s.heap[e]? = some el → el.notifier ≠ now

/-- When an update cannot be missed: its payload is accepted and its reading is
    not the one the notifier holds, or its builder is marked already, or it
    changes nothing that a builder reads. -/
def Noticed (s : Store) : Act → Prop
  | .frame _ => True
  | .update e renderObject now => ∀ el, s.heap[e]? = some el →
      if el.kind = .fragment then
        slotChange el.tag renderObject = none ∨ el.tag ≠ "floating-action-button-fragment" ∨
          ∀ holder, el.parent = some holder → Signals s holder now
      else
        Marked s e ∨ ("children" ∉ renderObject.keys ∧ "props" ∉ renderObject.keys) ∨
          (changeOf el renderObject ≠ none ∧ el.notifier ≠ now)

structure Painted (s : Store) : Prop where
  wf : WellFormed s
  builders : ∀ b ∈ s.builders, ∃ el, s.heap[b.element]? = some el ∧ el.kind.mountable = true ∧
    (b.dirty = true ∨ b.built = el.snapshot)

theorem Painted.frameOp {s : Store} (painted : Painted s) (op : FrameOp) : Painted (s.frameOp op) := by
  refine ⟨painted.wf.congr (frameOp_heap s op) (frameOp_scheduled s op), fun b member => ?_⟩
  rw [frameOp_heap]
  cases op with
  | attach e =>
    simp only [Store.frameOp, Store.attach] at member
    split at member
    · rename_i el found
      split at member
      · rename_i mountable
        rcases List.mem_append.mp member with old | new
        · exact painted.builders b old
        · simp only [List.mem_singleton] at new
          subst new
          exact ⟨el, found, mountable, .inr rfl⟩
      · exact painted.builders b member
    · exact painted.builders b member
  | detach e => exact painted.builders b (List.mem_of_mem_eraseP member)
  | build e =>
    simp only [Store.frameOp, Store.build] at member
    split at member
    · rename_i el found
      obtain ⟨old, held, rfl⟩ := List.mem_map.mp member
      obtain ⟨cell, here, mountable, shown⟩ := painted.builders old held
      by_cases same : old.element = e
      · rw [same] at here
        cases Option.some.inj (found.symm.trans here)
        simp only [same, if_true]
        exact ⟨el, found, mountable, .inr rfl⟩
      · simp only [same, if_false]
        exact ⟨cell, here, mountable, shown⟩
    · exact painted.builders b member

theorem Painted.frame {s : Store} (painted : Painted s) (ops : List FrameOp) :
    Painted (ops.foldl Store.frameOp s) := by
  induction ops generalizing s with
  | nil => exact painted
  | cons op rest ih => exact ih (painted.frameOp op)

theorem Painted.keep {s t : Store} (painted : Painted s) (wf : WellFormed t)
    (kept : ∀ b ∈ t.builders, ∃ old ∈ s.builders, old.element = b.element ∧
      ∀ el, s.heap[b.element]? = some el → el.kind.mountable = true →
        ∃ el', t.heap[b.element]? = some el' ∧ el'.kind = el.kind ∧
          (b.dirty = true ∨ (b = old ∧ el'.snapshot = el.snapshot))) : Painted t := by
  refine ⟨wf, fun b member => ?_⟩
  obtain ⟨old, held, same, later⟩ := kept b member
  obtain ⟨el, found, mountable, shown⟩ := painted.builders old held
  rw [same] at found
  obtain ⟨el', found', kind, now⟩ := later el found mountable
  refine ⟨el', found', by rw [kind, mountable], ?_⟩
  rcases now with dirty | ⟨rfl, snapshot⟩
  · exact .inl dirty
  · rwa [snapshot]

def Still (s t : Store) (a : Nat) : Prop :=
  ∀ el, s.heap[a]? = some el → el.kind.mountable = true →
    ∃ el', t.heap[a]? = some el' ∧ el'.kind = el.kind ∧ el'.notifier = el.notifier ∧
      (Marked s a ∨ el'.snapshot = el.snapshot)

theorem Painted.still {s t : Store} (painted : Painted s) (wf : WellFormed t)
    (builders : t.builders = s.builders) (still : ∀ a, Still s t a) : Painted t := by
  refine painted.keep wf fun b member => ?_
  rw [builders] at member
  refine ⟨b, member, rfl, fun el found mountable => ?_⟩
  obtain ⟨el', found', kind, _, shown⟩ := still b.element el found mountable
  refine ⟨el', found', kind, ?_⟩
  rcases shown with marked | same
  · exact .inl (marked b member rfl)
  · exact .inr ⟨rfl, same⟩

theorem Painted.notify {s t : Store} (painted : Painted s) (wf : WellFormed t)
    (builders : t.builders = s.builders) {x : Nat} {now : Int} (still : ∀ a, a ≠ x → Still s t a)
    (here : ∀ el, s.heap[x]? = some el → ∃ el', t.heap[x]? = some el' ∧ el'.kind = el.kind ∧
      el'.notifier = el.notifier ∧ (Signals s x now ∨ el'.snapshot = el.snapshot)) :
    Painted (t.notify x now) := by
  unfold Store.notify
  by_cases stale : t.heap[x]?.map Element.notifier = some now
  · rw [if_pos stale]
    refine painted.still wf builders fun a => ?_
    by_cases same : a = x
    · subst same
      intro el found _
      obtain ⟨el', found', kind, notifier, shown⟩ := here el found
      refine ⟨el', found', kind, notifier, ?_⟩
      rcases shown with (marked | fresh) | same
      · exact .inl marked
      · rw [found', Option.map_some, Option.some.injEq, notifier] at stale
        exact absurd stale (fresh el found)
      · exact .inr same
    · exact still a same
  · rw [if_neg stale]
    have wf' : WellFormed ((t.modify x (.withNotifier now)).mark x) :=
      ((Repainted.modify t x (.withNotifier now) fun _ => ⟨rfl, rfl, rfl, rfl, rfl, rfl, rfl, rfl⟩).trans
        (.mark _ x)).wf wf
    refine painted.keep wf' fun b member => ?_
    obtain ⟨old, held, rfl⟩ := List.mem_map.mp member
    rw [modify_builders, builders] at held
    by_cases same : old.element = x
    · simp only [same, if_true]
      refine ⟨old, held, same, fun el found _ => ?_⟩
      obtain ⟨el', found', kind, _⟩ := here el found
      exact ⟨_, modify_get_self _ found', kind, .inl trivial⟩
    · simp only [same, if_false]
      refine ⟨old, held, rfl, fun el found mountable => ?_⟩
      obtain ⟨el', found', kind, _, shown⟩ := still old.element same el found mountable
      refine ⟨el', (modify_get_other _ (Ne.symm same)).trans found', kind, ?_⟩
      rcases shown with marked | same
      · exact .inl (marked old held rfl)
      · exact .inr ⟨rfl, same⟩

theorem Edited.still {s t : Store} {e : Nat} {el : Element} {change : Change} (edited : Edited s t e el change)
    (a : Nat) (other : a ≠ e) : Still s t a := by
  intro held found _
  have bound : a < s.heap.length := (List.getElem?_eq_some_iff.mp found).1
  exact ⟨held, (edited.others a bound other).trans found, rfl, rfl, .inr rfl⟩

theorem changeOf_silent {el : Element} {renderObject : Object} (plain : el.kind ≠ .fragment)
    (children : "children" ∉ renderObject.keys) (props : "props" ∉ renderObject.keys) :
    changeOf el renderObject = some {} := by
  simp [changeOf, plain, changeOn, childrenOn, propsOn, children, props]

theorem edited_snapshot {s t : Store} {e : Nat} {el : Element} (edited : Edited s t e el {}) :
    ∃ el', t.heap[e]? = some el' ∧ el'.snapshot = el.snapshot := by
  obtain ⟨kids, cell, shown⟩ := edited.cell
  refine ⟨_, cell, ?_⟩
  simp only at shown
  simp [Element.snapshot, Element.edited, Change.merge, shown]

theorem Painted.sanoUpdate {s : Store} (painted : Painted s) {e : Nat} {el : Element} (found : s.heap[e]? = some el)
    (plain : el.kind ≠ .fragment) (renderObject : Object) (now : Int)
    (noticed : Marked s e ∨ ("children" ∉ renderObject.keys ∧ "props" ∉ renderObject.keys) ∨
      (changeOf el renderObject ≠ none ∧ el.notifier ≠ now)) :
    Painted (finalState (sanoUpdate e renderObject now s)) := by
  have change : changeOf el renderObject = changeOn renderObject renderObject.keys := by simp [changeOf, plain]
  apply Ends.final
  apply (sanoUpdate_ends painted.wf found renderObject now).mono
  · rintro _ u ⟨asked, t, accepted, edited, rfl⟩
    refine painted.notify edited.wf edited.builders edited.still fun held here => ?_
    cases Option.some.inj (found.symm.trans here)
    obtain ⟨kids, cell, _⟩ := edited.cell
    refine ⟨_, cell, rfl, rfl, ?_⟩
    rcases noticed with marked | ⟨children, props⟩ | ⟨_, fresh⟩
    · exact .inl (.inl marked)
    · have none := changeOf_silent plain children props
      rw [change, accepted] at none
      cases none
      obtain ⟨el', cell', same⟩ := edited_snapshot edited
      cases Option.some.inj (cell.symm.trans cell')
      exact .inr same
    · refine .inl (.inr fun other there => ?_)
      cases Option.some.inj (found.symm.trans there)
      exact fresh
  · rintro error t ⟨rejected, reached, edited⟩
    refine painted.still edited.wf edited.builders fun a => ?_
    by_cases same : a = e
    · subst same
      intro held here _
      cases Option.some.inj (found.symm.trans here)
      obtain ⟨kids, cell, _⟩ := edited.cell
      refine ⟨_, cell, rfl, rfl, ?_⟩
      rcases noticed with marked | ⟨children, props⟩ | ⟨accepted, _⟩
      · exact .inl marked
      · have none := changeOf_silent plain children props
        rw [change, rejected] at none
        cases none
      · exact absurd (change.trans rejected) accepted
    · exact edited.still a same

theorem Painted.fragmentUpdate {s : Store} (painted : Painted s) {e : Nat} {el : Element}
    (found : s.heap[e]? = some el) (fragment : el.kind = .fragment) (renderObject : Object) (now : Int)
    (noticed : slotChange el.tag renderObject = none ∨ el.tag ≠ "floating-action-button-fragment" ∨
      ∀ holder, el.parent = some holder → Signals s holder now) :
    Painted (finalState (fragmentUpdate e renderObject now s)) := by
  -- the fragment itself is never mounted, so its own cell owes nothing
  have still {t : Store} {change : Change} (edited : Edited s t e el change) (a : Nat) : Still s t a := by
    by_cases same : a = e
    · subst same
      intro held here mountable
      cases Option.some.inj (found.symm.trans here)
      simp [fragment, Kind.mountable] at mountable
    · exact edited.still a same
  apply Ends.final
  apply (fragmentUpdate_ends painted.wf found fragment renderObject now).mono
  · rintro _ u ⟨change, t, holder, kids, accepted, edited, owner, _, rfl⟩
    have lower := (painted.wf.sound e el found).parent holder owner
    obtain ⟨p, c, owner', cell, scaffold⟩ := (painted.wf.sound e el found).holder fragment
    cases Option.some.inj (owner.symm.trans owner')
    have held : t.heap[holder]? = some c := by
      have bound : holder < s.heap.length := (List.getElem?_eq_some_iff.mp cell).1
      exact (edited.others holder bound (by omega)).trans cell
    have wf' := (Repainted.fill t holder el.tag kids.head?).wf edited.wf
    have filled : (t.fill holder el.tag kids.head?).builders = s.builders := by
      unfold Store.fill
      split <;> exact edited.builders
    refine painted.notify wf' filled (fun a other => ?_) fun old here => ?_
    · have same : (t.fill holder el.tag kids.head?).heap[a]? = t.heap[a]? := by
        unfold Store.fill
        split
        · exact modify_get_other _ (Ne.symm other)
        · rfl
      intro old here mountable
      rw [same]
      exact still edited a old here mountable
    · cases Option.some.inj (cell.symm.trans here)
      by_cases slot : el.tag = "floating-action-button-fragment"
      · refine ⟨c.withFloatingActionButton kids.head?, by rw [Store.fill, if_pos slot, modify_get_self _ held],
          rfl, rfl, .inl ?_⟩
        rcases noticed with rejected | tag | signals
        · rw [rejected] at accepted
          cases accepted
        · exact absurd slot tag
        · exact signals holder owner
      · exact ⟨c, by rw [Store.fill, if_neg slot, held], rfl, rfl, .inr rfl⟩
  · rintro error t ⟨_, reached, edited⟩
    exact painted.still edited.wf edited.builders (still edited)

theorem Painted.act {s : Store} (painted : Painted s) (event : Act) (noticed : Noticed s event) :
    Painted (act s event) := by
  cases event with
  | frame ops => exact painted.frame ops
  | update e renderObject now =>
    cases found : s.heap[e]? with
    | none =>
      have missing : read e s = .error .nullCheck s := by simp [read, found]
      simpa [Render.act, update, Bind.bind, EStateM.bind, missing, finalState] using painted
    | some el =>
      have noticed := noticed el found
      have loaded : read e s = .ok el s := by simp [read, found]
      by_cases fragment : el.kind = .fragment
      · simp only [fragment, if_true] at noticed
        simpa [Render.act, update, Bind.bind, EStateM.bind, loaded, fragment] using
          painted.fragmentUpdate found fragment renderObject now noticed
      · simp only [fragment, if_false] at noticed
        simpa [Render.act, update, Bind.bind, EStateM.bind, loaded, fragment] using
          painted.sanoUpdate found fragment renderObject now noticed

/-- In a run whose updates are all noticed, a builder whose element no longer
    shows what it was built from is marked, in every state. -/
theorem repaint_not_lost (channel : String) (payload : Json) (root : Nat) (mounted : Store)
    (mount : rootElement payload channel {} = .ok root mounted) (acts : List Act)
    (noticed : Run.Along act Noticed mounted acts) :
    ∀ s ∈ Run.states act mounted acts, ∀ b ∈ s.builders, ∃ el, s.heap[b.element]? = some el ∧
      (b.built ≠ el.snapshot → b.dirty = true) := by
  have built := ((rootElement_ends payload channel {} empty_wellFormed).ok mount).1
  have fresh : mounted.builders = [] := built.grown.builders
  have initial : Painted mounted := ⟨built.wf, by simp [fresh]⟩
  intro s member b listed
  have painted : Painted s :=
    Run.invariant act Noticed Painted (fun _ event painted => painted.act event) acts mounted initial noticed s member
  obtain ⟨el, found, _, shown⟩ := painted.builders b listed
  exact ⟨el, found, fun stale => shown.resolve_right stale⟩

def noticedActs : List Act := [.frame [.attach 1, .attach 2], .update 2 (sampleProps "new") 5]

theorem repaint_not_lost_text : ∃ root mounted, rootElement samplePage "page" {} = .ok root mounted ∧
    ∀ s ∈ Run.states act mounted noticedActs, ∀ b ∈ s.builders, ∃ el, s.heap[b.element]? = some el ∧
      (b.built ≠ el.snapshot → b.dirty = true) := by
  have evaluated : returns (fun _ mounted =>
      match (act mounted (.frame [.attach 1, .attach 2])).heap[2]? with
      | some el => el.kind == .element && (changeOf el (sampleProps "new")).isSome && el.notifier != 5
      | none => false) (rootElement samplePage "page" {}) = true := by decide +kernel
  obtain ⟨root, mounted, mount, later⟩ := returns_ok evaluated
  refine ⟨root, mounted, mount, repaint_not_lost "page" samplePage root mounted mount noticedActs ⟨trivial, ?_, trivial⟩⟩
  intro el found
  simp only [found, Bool.and_eq_true, beq_iff_eq, bne_iff_ne] at later
  obtain ⟨⟨kind, accepted⟩, fresh⟩ := later
  rw [kind, if_neg (by decide)]
  exact .inr (.inr ⟨Option.isSome_iff_ne_none.mp accepted, fresh⟩)

def sameMillisecond : List Act :=
  [.frame [.attach 1, .attach 2], .update 2 (sampleProps "one") 5, .frame [.build 2],
    .update 2 (sampleProps "two") 5]

def Act.reading : Act → Option Int
  | .update _ _ now => some now
  | .frame _ => none

theorem same_millisecond_lost : (sameMillisecond.filterMap Act.reading).Pairwise (· ≤ ·) ∧
    ∃ root mounted, rootElement samplePage "page" {} = .ok root mounted ∧
      ∃ b ∈ (Run.final act mounted sameMillisecond).builders, ∃ el,
        (Run.final act mounted sameMillisecond).heap[b.element]? = some el ∧
        b.built ≠ el.snapshot ∧ b.dirty = false := by
  let data (props : Object) : Option String := (props.field "data").asString
  have evaluated : returns (fun _ mounted =>
      let s := Run.final act mounted sameMillisecond
      s.builders.any fun b =>
        match s.heap[b.element]? with
        | some el => data b.built.props != data el.props && b.dirty == false
        | none => false) (rootElement samplePage "page" {}) = true := by decide +kernel
  refine ⟨by decide, ?_⟩
  obtain ⟨root, mounted, mount, later⟩ := returns_ok evaluated
  obtain ⟨b, member, stale⟩ := List.any_eq_true.mp later
  refine ⟨root, mounted, mount, b, member, ?_⟩
  split at stale
  · rename_i el found
    simp only [Bool.and_eq_true, bne_iff_ne, beq_iff_eq] at stale
    exact ⟨el, found, fun same => stale.1 (by rw [same]; rfl), stale.2⟩
  · cases stale

end Repaint

end Sano.Render
