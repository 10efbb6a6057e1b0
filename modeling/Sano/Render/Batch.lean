import Sano.Render.Evolution

namespace Sano.Render

section Emission

def OwnIds (heap : List Element) (listeners : LinkedMap String Nat) : Prop :=
  ∀ id e, listeners.get? id = some e → ∃ el, heap[e]? = some el ∧ el.id = id

def batchChange (heap : List Element) (listeners : LinkedMap String Nat) (entries : List (String × Json))
    (a : Nat) : Change :=
  match heap[a]? with
  | none => {}
  | some el =>
    if listeners.get? el.id = some a then
      (((LinkedMap.find el.id entries).bind Json.asMap).bind (changeOf el)).getD {}
    else {}

def Accepted (heap : List Element) (listeners : LinkedMap String Nat) (entries : List (String × Json)) : Prop :=
  ∀ id value, (id, value) ∈ entries → ∃ renderObject, value.asMap = some renderObject ∧
    ∀ e el, listeners.get? id = some e → heap[e]? = some el → changeOf el renderObject ≠ none

variable {s t : Store} {listeners : LinkedMap String Nat}

theorem changeOf_congr {el el' : Element} (kind : el'.kind = el.kind) (tag : el'.tag = el.tag)
    (renderObject : Object) : changeOf el' renderObject = changeOf el renderObject := by
  simp only [changeOf, kind, tag]

theorem OwnIds.evolve (own : OwnIds s.heap listeners) (evolves : Evolves s t) : OwnIds t.heap listeners := by
  intro id e held
  obtain ⟨el, found, same⟩ := own id e held
  obtain ⟨el', found', kept⟩ := evolves.cells e el found
  exact ⟨el', found', kept.id.trans same⟩

theorem emit_cases (own : OwnIds s.heap listeners) {id : String} {value : Json} {now : Int}
    (returned : emit listeners id value now s = .ok () t) : ∃ renderObject, value.asMap = some renderObject ∧
      ((listeners.get? id = none ∧ t = s) ∨
        ∃ e el, listeners.get? id = some e ∧ s.heap[e]? = some el ∧ el.id = id ∧
          update e renderObject now s = .ok () t) := by
  unfold emit at returned
  cases object : value.asMap with
  | none =>
    rw [object] at returned
    cases returned
  | some renderObject =>
    refine ⟨renderObject, rfl, ?_⟩
    simp only [object, cast, pure_bind] at returned
    cases held : listeners.get? id with
    | none =>
      simp only [held] at returned
      cases returned
      exact .inl ⟨rfl, rfl⟩
    | some e =>
      obtain ⟨el, found, same⟩ := own id e held
      simp only [held] at returned
      exact .inr ⟨e, el, rfl, found, same, returned⟩

theorem accepted_evolves (own : OwnIds s.heap listeners) (evolves : Evolves s t)
    (entries : List (String × Json)) : Accepted t.heap listeners entries ↔ Accepted s.heap listeners entries := by
  constructor
  · intro accepted id value member
    obtain ⟨renderObject, cast, asked⟩ := accepted id value member
    refine ⟨renderObject, cast, fun e el held found => ?_⟩
    obtain ⟨el', found', kept⟩ := evolves.cells e el found
    rw [← changeOf_congr kept.kind kept.tag]
    exact asked e el' held found'
  · intro accepted id value member
    obtain ⟨renderObject, cast, asked⟩ := accepted id value member
    refine ⟨renderObject, cast, fun e el' held found' => ?_⟩
    obtain ⟨el, found, _⟩ := own id e held
    obtain ⟨cell, here, kept⟩ := evolves.cells e el found
    cases Option.some.inj (found'.symm.trans here)
    rw [changeOf_congr kept.kind kept.tag]
    exact asked e el held found

theorem batchChange_evolves (own : OwnIds s.heap listeners) (evolves : Evolves s t)
    (entries : List (String × Json)) : batchChange t.heap listeners entries = batchChange s.heap listeners entries := by
  funext a
  unfold batchChange
  cases found : s.heap[a]? with
  | none =>
    cases held : t.heap[a]? with
    | none => rfl
    | some el =>
      simp only
      refine if_neg fun registered => ?_
      obtain ⟨old, cell, _⟩ := own el.id a registered
      rw [found] at cell
      cases cell
  | some el =>
    obtain ⟨el', found', kept⟩ := evolves.cells a el found
    have same : changeOf el' = changeOf el := funext (changeOf_congr kept.kind kept.tag)
    simp only [found', kept.id, same]

theorem batchChange_cons {id : String} {value : Json} {rest : List (String × Json)} {e : Nat} {el : Element}
    {renderObject : Object} {change : Change} (registered : listeners.get? id = some e)
    (found : s.heap[e]? = some el) (same : el.id = id) (cast : value.asMap = some renderObject)
    (asked : changeOf el renderObject = some change) :
    batchChange s.heap listeners ((id, value) :: rest) =
      Function.update (batchChange s.heap listeners rest) e change := by
  funext a
  by_cases here : a = e
  · subst here
    rw [Function.update_self]
    simp [batchChange, found, same, registered, LinkedMap.find, cast, asked]
  · rw [Function.update_of_ne here]
    unfold batchChange
    cases cell : s.heap[a]? with
    | none => rfl
    | some other =>
      simp only
      by_cases listed : listeners.get? other.id = some a
      · have different : id ≠ other.id := by
          rintro rfl
          exact here (Option.some.inj (listed.symm.trans registered))
        simp [LinkedMap.find, different]
      · simp only [listed, if_false]

theorem batchChange_unregistered {id : String} {value : Json} {rest : List (String × Json)}
    (unregistered : listeners.get? id = none) :
    batchChange s.heap listeners ((id, value) :: rest) = batchChange s.heap listeners rest := by
  funext a
  unfold batchChange
  cases s.heap[a]? with
  | none => rfl
  | some el =>
    simp only
    by_cases listed : listeners.get? el.id = some a
    · have different : id ≠ el.id := by
        rintro rfl
        simp [unregistered] at listed
      simp [LinkedMap.find, different]
    · simp only [listed, if_false]

theorem batchChange_absent {id : String} {e : Nat} {el : Element} {rest : List (String × Json)}
    (found : s.heap[e]? = some el) (same : el.id = id) (absent : id ∉ rest.map Prod.fst) :
    batchChange s.heap listeners rest e = {} := by
  simp [batchChange, found, same, LinkedMap.find_eq_none.mpr absent]

theorem batchChange_new {entries : List (String × Json)} {b : Nat} (new : s.heap.length ≤ b) :
    batchChange s.heap listeners entries b = {} := by
  simp [batchChange, List.getElem?_eq_none new]

/-- A batch that returns has made all its changes at once. -/
theorem emitAll_returned (wf : WellFormed s) (own : OwnIds s.heap listeners) (entries : List (String × Json))
    (nodup : (entries.map Prod.fst).Nodup) (clock : Nat → Int)
    (returned : emitAll listeners entries clock s = .ok () t) :
    Accepted s.heap listeners entries ∧ ∀ a, a < s.heap.length →
      doc t.heap a = docWith s.heap (batchChange s.heap listeners entries) a := by
  induction entries generalizing s clock with
  | nil =>
    cases returned
    refine ⟨by simp [Accepted], fun a _ => ?_⟩
    have none : batchChange t.heap listeners [] = fun _ => {} := by
      funext b
      unfold batchChange
      split
      · rfl
      · simp [LinkedMap.find]
    rw [none]
    rfl
  | cons entry rest ih =>
    obtain ⟨id, value⟩ := entry
    simp only [List.map_cons, List.nodup_cons] at nodup
    obtain ⟨absent, distinct⟩ := nodup
    simp only [emitAll, Bind.bind, EStateM.bind] at returned
    split at returned
    · rename_i _ middle first
      obtain ⟨renderObject, cast, outcome⟩ := emit_cases own first
      rcases outcome with ⟨unregistered, rfl⟩ | ⟨e, el, registered, found, same, call⟩
      · obtain ⟨accepted, docs⟩ := ih wf own distinct _ returned
        refine ⟨fun key payload member => ?_, fun a bound => ?_⟩
        · rcases List.mem_cons.mp member with here | later
          · cases here
            exact ⟨renderObject, cast, fun e _ held => by rw [unregistered] at held; cases held⟩
          · exact accepted key payload later
        · rw [batchChange_unregistered unregistered]
          exact docs a bound
      · obtain ⟨el', change, found', asked, updated⟩ := update_returned wf call
        cases Option.some.inj (found.symm.trans found')
        have evolves := updated.evolves found
        obtain ⟨accepted, docs⟩ := ih evolves.wf (own.evolve evolves) distinct _ returned
        refine ⟨fun key payload member => ?_, fun a bound => ?_⟩
        · rcases List.mem_cons.mp member with here | later
          · cases here
            refine ⟨renderObject, cast, fun other cell held here => ?_⟩
            cases Option.some.inj (registered.symm.trans held)
            cases Option.some.inj (found.symm.trans here)
            simp [asked]
          · exact (accepted_evolves own evolves rest).mp accepted key payload later
        · rw [docs a (Nat.lt_of_lt_of_le bound evolves.longer), batchChange_evolves own evolves rest,
            batchChange_cons registered found same cast asked]
          exact updated.docWith_eq wf found _ (batchChange_absent found same absent)
            (fun b new => batchChange_new new) a bound
    · cases returned

theorem emitAll_returns (wf : WellFormed s) (own : OwnIds s.heap listeners) (entries : List (String × Json))
    (clock : Nat → Int) (accepted : Accepted s.heap listeners entries) :
    ∃ t, emitAll listeners entries clock s = .ok () t := by
  induction entries generalizing s clock with
  | nil => exact ⟨s, rfl⟩
  | cons entry rest ih =>
    obtain ⟨id, value⟩ := entry
    obtain ⟨renderObject, cast, asked⟩ := accepted id value (by simp)
    have later : Accepted s.heap listeners rest := fun key payload member => accepted key payload (by simp [member])
    have first : ∃ middle, emit listeners id value (clock 0) s = .ok () middle ∧ Evolves s middle := by
      unfold emit
      simp only [cast, Render.cast, pure_bind]
      cases registered : listeners.get? id with
      | none => exact ⟨s, rfl, .refl wf⟩
      | some e =>
        obtain ⟨el, found, _⟩ := own id e registered
        obtain ⟨change, accepts⟩ := Option.ne_none_iff_exists'.mp (asked e el registered found)
        obtain ⟨middle, call, updated⟩ := update_returns wf found accepts (clock 0)
        exact ⟨middle, call, updated.evolves found⟩
    obtain ⟨middle, emitted, evolves⟩ := first
    obtain ⟨t, returned⟩ := ih evolves.wf (own.evolve evolves) (fun n => clock (n + 1))
      ((accepted_evolves own evolves rest).mpr later)
    refine ⟨t, ?_⟩
    simp only [emitAll, Bind.bind, EStateM.bind, emitted]
    exact returned

end Emission

section Order

/-- A batch that returns in one order returns in every order, and shows the same
    document at the root, from every state that messages, tasks and frames reach. -/
theorem batch_order_independent (events : List World.Event) (page : String) (root : Nat)
    (mounted : (World.run events).roots.get? page = some root) (data reordered : Object)
    (perm : reordered.entries.Perm data.entries) (clock clock' : Nat → Int) (t : Store)
    (returned : emitAll ((World.run events).listeners root) data.entries clock (World.run events).store = .ok () t) :
    ∃ t', emitAll ((World.run events).listeners root) reordered.entries clock' (World.run events).store = .ok () t' ∧
      doc t'.heap root = doc t.heap root := by
  have sound := World.run_sound events
  generalize World.run events = w at *
  obtain ⟨task, _⟩ := sound.roots page root mounted
  have bound : root < w.store.heap.length := sound.wf.scheduled root task
  have own : OwnIds w.store.heap (w.listeners root) := by
    intro id e held
    obtain ⟨el, found, same, _⟩ := sound.listeners root id e held
    exact ⟨el, found, same⟩
  obtain ⟨accepted, shown⟩ := emitAll_returned sound.wf own data.entries data.nodup clock returned
  have accepted' : Accepted w.store.heap (w.listeners root) reordered.entries :=
    fun id value member => accepted id value (perm.mem_iff.mp member)
  obtain ⟨t', returned'⟩ := emitAll_returns sound.wf own reordered.entries clock' accepted'
  obtain ⟨_, shown'⟩ := emitAll_returned sound.wf own reordered.entries reordered.nodup clock' returned'
  have changes : batchChange w.store.heap (w.listeners root) reordered.entries =
      batchChange w.store.heap (w.listeners root) data.entries := by
    funext a
    unfold batchChange
    split
    · rfl
    · rename_i el _
      have same : LinkedMap.find el.id reordered.entries = LinkedMap.find el.id data.entries :=
        LinkedMap.get?_perm perm el.id
      rw [same]
  exact ⟨t', returned', by rw [shown' root bound, changes, ← shown root bound]⟩

def mountedEvents : List World.Event := [.mount "page" samplePage, .task, .task, .task]

def sampleBatch : Object :=
  ⟨[("r", .map [("children", .list [])]), ("x", .map [("props", .map [("data", .string "new")])])], by decide⟩

def sampleReordered : Object :=
  ⟨[("x", .map [("props", .map [("data", .string "new")])]), ("r", .map [("children", .list [])])], by decide⟩

theorem batch_order_independent_row : ∃ t t',
    emitAll ((World.run mountedEvents).listeners 0) sampleBatch.entries (fun _ => 5) (World.run mountedEvents).store =
      .ok () t ∧
    emitAll ((World.run mountedEvents).listeners 0) sampleReordered.entries (fun _ => 5)
      (World.run mountedEvents).store = .ok () t' ∧ doc t'.heap 0 = doc t.heap 0 := by
  have evaluated : returns (fun _ _ => true) (emitAll ((World.run mountedEvents).listeners 0) sampleBatch.entries
      (fun _ => 5) (World.run mountedEvents).store) = true := by decide +kernel
  obtain ⟨_, t, returned, _⟩ := returns_ok evaluated
  obtain ⟨t', returned', same⟩ := batch_order_independent mountedEvents "page" 0 (by decide +kernel) sampleBatch
    sampleReordered (.swap _ _ []) (fun _ => 5) (fun _ => 5) t returned
  exact ⟨t, t', returned, returned', same⟩

end Order

end Sano.Render
