import Mathlib.Data.List.Induction
import Sano.Render.Update

namespace Sano.Render

section Paths

variable {heap : List Element}

theorem links_next {el : Element} {b : Nat} (member : b ∈ el.links) : ∃ step, el.next step = some b := by
  rcases List.mem_append.mp member with child | fragment
  · obtain ⟨index, inside, same⟩ := List.getElem_of_mem child
    exact ⟨.child index, by simp [Element.next, List.getElem?_eq_getElem inside, same]⟩
  · exact ⟨.slot, by simpa [Element.next] using fragment⟩

theorem next_injective {el : Element} {first second : Step} {b : Nat} (nodup : el.links.Nodup)
    (left : el.next first = some b) (right : el.next second = some b) : first = second := by
  obtain ⟨children, _, disjoint⟩ := List.nodup_append'.mp nodup
  have apart (index : Nat) (child : el.next (.child index) = some b) (slot : el.next .slot = some b) : False := by
    refine disjoint (List.mem_of_getElem? child) ?_
    simpa [Element.next] using slot
  cases first with
  | child i =>
    cases second with
    | child j =>
      obtain ⟨inside, _⟩ := List.getElem?_eq_some_iff.mp left
      exact congrArg Step.child ((List.getElem?_inj inside children).mp (left.trans right.symm))
    | slot => exact (apart i left right).elim
  | slot =>
    cases second with
    | child j => exact (apart j right left).elim
    | slot => rfl

theorem follow_cons {a b : Nat} {el : Element} {step : Step} (found : heap[a]? = some el)
    (next : el.next step = some b) (rest : List Step) : follow heap a (step :: rest) = follow heap b rest := by
  simp [follow, found, next]

theorem follow_cons_some {a c : Nat} {step : Step} {rest : List Step}
    (reached : follow heap a (step :: rest) = some c) :
    ∃ el b, heap[a]? = some el ∧ el.next step = some b ∧ follow heap b rest = some c := by
  simp only [follow] at reached
  obtain ⟨b, first, later⟩ := Option.bind_eq_some_iff.mp reached
  obtain ⟨el, found, next⟩ := Option.bind_eq_some_iff.mp first
  exact ⟨el, b, found, next, later⟩

theorem follow_append (a : Nat) (path rest : List Step) :
    follow heap a (path ++ rest) = (follow heap a path).bind fun b => follow heap b rest := by
  induction path generalizing a with
  | nil => rfl
  | cons step path ih => simp [follow, ih, Option.bind_assoc]

theorem follow_le {a c : Nat} (linked : Linked heap) (path : List Step)
    (reached : follow heap a path = some c) : a ≤ c := by
  induction path generalizing a with
  | nil => exact Nat.le_of_eq (Option.some.inj reached)
  | cons step rest ih =>
    obtain ⟨el, b, found, next, later⟩ := follow_cons_some reached
    exact Nat.le_trans (Nat.le_of_lt (linked a el found b (next_mem next)).1) (ih later)

theorem follow_lt {a c : Nat} (linked : Linked heap) (step : Step) (rest : List Step)
    (reached : follow heap a (step :: rest) = some c) : a < c := by
  obtain ⟨el, b, found, next, later⟩ := follow_cons_some reached
  exact Nat.lt_of_lt_of_le (linked a el found b (next_mem next)).1 (follow_le linked rest later)

theorem follow_last {a c : Nat} {path : List Step} {step : Step}
    (reached : follow heap a (path ++ [step]) = some c) :
    ∃ b el, follow heap a path = some b ∧ heap[b]? = some el ∧ el.next step = some c := by
  rw [follow_append] at reached
  obtain ⟨b, first, last⟩ := Option.bind_eq_some_iff.mp reached
  obtain ⟨el, b', found, next, done⟩ := follow_cons_some last
  cases done
  exact ⟨b, el, first, found, next⟩

/-- Ownership as seen from a tree: an element occurs at one place only. -/
theorem follow_unique {s : Store} (wf : WellFormed s) (a e : Nat) (left right : List Step)
    (first : follow s.heap a left = some e) (second : follow s.heap a right = some e) : left = right := by
  induction left using List.reverseRecOn generalizing e right with
  | nil =>
    cases right with
    | nil => rfl
    | cons step rest =>
      have same : a = e := Option.some.inj first
      have lower := follow_lt wf.linked step rest second
      omega
  | append_singleton left step ih =>
    rcases List.eq_nil_or_concat right with rfl | ⟨right, other, rfl⟩
    · have same : a = e := Option.some.inj second
      obtain ⟨b, el, reached, found, next⟩ := follow_last first
      have lower := follow_le wf.linked left reached
      have link := (wf.linked b el found e (next_mem next)).1
      omega
    · rw [List.concat_eq_append] at second ⊢
      obtain ⟨b, el, reached, found, next⟩ := follow_last first
      obtain ⟨b', el', reached', found', next'⟩ := follow_last second
      obtain ⟨_, _, cell, held, owner⟩ := (wf.sound b el found).links e (next_mem next)
      obtain ⟨_, _, cell', held', owner'⟩ := (wf.sound b' el' found').links e (next_mem next')
      cases Option.some.inj (held.symm.trans held')
      cases Option.some.inj (owner.symm.trans owner')
      cases Option.some.inj (found.symm.trans found')
      rw [ih b right reached reached', next_injective (wf.sound b el found).nodup next next']

end Paths

section Placement

variable {s : Store} {e : Nat}

def only (e : Nat) (change : Change) : Nat → Change := Function.update (fun _ => {}) e change

theorem only_of_ne {a : Nat} (change : Change) (other : a ≠ e) : only e change a = {} :=
  Function.update_of_ne other _ _

theorem docWith_above (wf : WellFormed s) (change : Change) (a : Nat) (bound : a < s.heap.length)
    (above : e < a) : docWith s.heap (only e change) a = doc s.heap a := by
  apply docWith_frame wf.linked wf.linked a bound
  · intro b later _
    exact only_of_ne change (by omega)
  · exact fun _ el _ found => ⟨el, found, .refl el⟩

theorem docWith_unreached (wf : WellFormed s) (change : Change) (a : Nat) (bound : a < s.heap.length)
    (away : ¬ InTree s.heap a e) : docWith s.heap (only e change) a = doc s.heap a := by
  generalize distance : s.heap.length - a = n
  induction n using Nat.strongRecOn generalizing a with
  | ind n ih =>
    obtain ⟨el, found⟩ : ∃ el, s.heap[a]? = some el := ⟨_, List.getElem?_eq_getElem bound⟩
    have other : a ≠ e := fun same => away ⟨[], congrArg some same⟩
    have below (step : Step) (b : Nat) (next : el.next step = some b) :
        docWith s.heap (only e change) b = doc s.heap b := by
      obtain ⟨later, inside⟩ := wf.linked a el found b (next_mem next)
      refine ih (s.heap.length - b) (by omega) b inside ?_ rfl
      rintro ⟨path, reached⟩
      exact away ⟨step :: path, (follow_cons found next path).trans reached⟩
    rw [docWith_node _ wf.linked found, doc_node wf.linked found, only_of_ne change other, Change.apply_none,
      children_congr fun index => below (.child index), fragment_congr (below .slot)]

/-- A change pending at `e` shows at the place of `e` and nowhere else. -/
theorem docWith_at (wf : WellFormed s) (change : Change) (path : List Step) (a : Nat)
    (bound : a < s.heap.length) (reached : follow s.heap a path = some e) :
    docWith s.heap (only e change) a = (doc s.heap a).modifyAt change.apply path := by
  induction path generalizing a with
  | nil =>
    have same : a = e := Option.some.inj reached
    subst same
    obtain ⟨el, found⟩ : ∃ el, s.heap[a]? = some el := ⟨_, List.getElem?_eq_getElem bound⟩
    have below (step : Step) (b : Nat) (next : el.next step = some b) :
        docWith s.heap (only a change) b = doc s.heap b := by
      obtain ⟨later, inside⟩ := wf.linked a el found b (next_mem next)
      exact docWith_above wf change b inside later
    rw [docWith_node _ wf.linked found, doc_node wf.linked found, children_congr fun index => below (.child index),
      fragment_congr (below .slot), only, Function.update_self]
    rfl
  | cons step rest ih =>
    obtain ⟨el, b, found, next, later⟩ := follow_cons_some reached
    have link := wf.linked a el found b (next_mem next)
    have lower := follow_lt wf.linked step rest reached
    have here := ih b link.2 later
    have elsewhere (other : Step) (c : Nat) (different : other ≠ step) (leads : el.next other = some c) :
        docWith s.heap (only e change) c = doc s.heap c := by
      refine docWith_unreached wf change c (wf.linked a el found c (next_mem leads)).2 ?_
      rintro ⟨path, ends⟩
      have same := follow_unique wf a e (other :: path) (step :: rest) ((follow_cons found leads path).trans ends) reached
      exact different (List.cons.inj same).1
    rw [docWith_node _ wf.linked found, doc_node wf.linked found, only_of_ne change (by omega), Change.apply_none]
    cases step with
    | child index =>
      have slot : el.fragment.map (docWith s.heap (only e change)) = el.fragment.map (doc s.heap) :=
        fragment_congr fun c => elsewhere .slot c (by simp)
      cases held : el.children with
      | none => simp [Element.next, held] at next
      | some kids =>
        simp only [Element.next, held, Option.getD_some] at next
        have children : kids.map (docWith s.heap (only e change)) =
            (kids.map (doc s.heap)).modify index (Doc.modifyAt change.apply rest) := by
          apply List.ext_getElem?
          intro j
          rw [List.getElem?_modify, List.getElem?_map, List.getElem?_map]
          by_cases same : index = j
          · subst same
            simp [next, here]
          · cases child : kids[j]? with
            | none => simp
            | some c =>
              have kept := elsewhere (.child j) c (by simpa using Ne.symm same) (by simp [Element.next, held, child])
              simp [same, kept]
        simp only [Doc.modifyAt, Option.map_some, children, slot]
    | slot =>
      have children : el.children.map (List.map (docWith s.heap (only e change))) =
          el.children.map (List.map (doc s.heap)) :=
        children_congr fun index c => elsewhere (.child index) c (by simp)
      have fragment : el.fragment = some b := next
      simp only [Doc.modifyAt, children, fragment, Option.map_some, here]

end Placement

section Refinement

inductive Calls (s : Store) : Store → Prop where
  | start : Calls s s
  | call {t u : Store} (e : Nat) (renderObject : Object) (now : Int) (earlier : Calls s t)
      (returned : update e renderObject now t = .ok () u) : Calls s u

variable {s t : Store} {e : Nat} {renderObject : Object} {now : Int}

theorem update_found (returned : update e renderObject now s = .ok () t) : ∃ el, s.heap[e]? = some el := by
  cases found : s.heap[e]? with
  | some el => exact ⟨el, rfl⟩
  | none =>
    have failed : read e s = .error .nullCheck s := by simp [read, found]
    simp [update, Bind.bind, EStateM.bind, failed] at returned

theorem update_returned (wf : WellFormed s) (returned : update e renderObject now s = .ok () t) :
    ∃ el change, s.heap[e]? = some el ∧ changeOf el renderObject = some change ∧ Updated s t e el change := by
  obtain ⟨el, found⟩ := update_found returned
  obtain ⟨change, asked, updated⟩ := (update_ends wf found renderObject now).ok returned
  exact ⟨el, change, found, asked, updated⟩

theorem update_returns (wf : WellFormed s) {el : Element} {change : Change} (found : s.heap[e]? = some el)
    (asked : changeOf el renderObject = some change) (now : Int) :
    ∃ t, update e renderObject now s = .ok () t ∧ Updated s t e el change := by
  cases result : update e renderObject now s with
  | ok value t =>
    obtain ⟨other, same, updated⟩ := (update_ends wf found renderObject now).ok result
    cases Option.some.inj (asked.symm.trans same)
    exact ⟨t, rfl, updated⟩
  | error fault t =>
    have rejected := ((update_ends wf found renderObject now).error result).1
    rw [asked] at rejected
    cases rejected

theorem Updated.longer {el : Element} {change : Change} (updated : Updated s t e el change) :
    s.heap.length ≤ t.heap.length := by
  obtain ⟨middle, edited, repainted⟩ := updated
  rw [repainted.length]
  exact edited.longer

theorem Calls.kept {s t : Store} (calls : Calls s t) (wf : WellFormed s) :
    WellFormed t ∧ s.heap.length ≤ t.heap.length := by
  induction calls with
  | start => exact ⟨wf, Nat.le_refl _⟩
  | call e renderObject now _ returned ih =>
    obtain ⟨el, change, _, _, updated⟩ := update_returned ih.1 returned
    exact ⟨updated.wf, Nat.le_trans ih.2 updated.longer⟩

theorem changeOf_perm (el : Element) {renderObject other : Object}
    (perm : renderObject.entries.Perm other.entries) : changeOf el renderObject = changeOf el other := by
  have field (key : String) : renderObject.field key = other.field key := by
    simp only [Object.field, LinkedMap.get?_perm perm]
  have keys (key : String) : key ∈ renderObject.keys ↔ key ∈ other.keys := by
    simp only [LinkedMap.mem_keys, LinkedMap.get?_perm perm]
  simp only [changeOf, slotChange, changeOn, childrenOn, propsOn, field, keys]

theorem updated_doc {el : Element} {change : Change} (wf : WellFormed s) (found : s.heap[e]? = some el)
    (updated : Updated s t e el change) (root : Nat) (bound : root < s.heap.length) :
    doc t.heap root = docWith s.heap (only e change) root :=
  updated.docWith_eq wf found _ rfl (fun _ _ => rfl) root bound

theorem change_merge_get? (change : Change) (props : Object) (key : String) :
    (change.merge props).get? key = (change.props.bind fun added => added.get? key).or (props.get? key) := by
  cases asked : change.props <;> simp [Change.merge, asked, LinkedMap.get?_addAll]

theorem empty_wellFormed : WellFormed {} := ⟨by simp, by simp⟩

/-- The element heap refines the document. A mount shows its payload. In every
    state that updates reach, an update of any element that was ever created
    rewrites the document at the one place of that element, or leaves it alone
    when the element has been detached; the order of the payload's keys is not seen. -/
theorem heap_refines_document (channel : String) (payload : Json) (root : Nat) (mounted s : Store)
    (mount : rootElement payload channel {} = .ok root mounted) (calls : Calls mounted s) :
    (∃ shown, payload.asMap.bind docOf = some shown ∧
      doc mounted.heap root = .node channel "root" ∅ none (some [shown]) none) ∧
    ∀ (e : Nat) (renderObject : Object) (now : Int) (t : Store),
      update e renderObject now s = .ok () t →
      ∃ el change, s.heap[e]? = some el ∧ changeOf el renderObject = some change ∧
        (∀ props key, (change.merge props).get? key =
          (change.props.bind fun added => added.get? key).or (props.get? key)) ∧
        (∀ path, follow s.heap root path = some e →
          doc t.heap root = (doc s.heap root).modifyAt change.apply path ∧
          ∀ other, follow s.heap root other = some e → other = path) ∧
        (¬ InTree s.heap root e → doc t.heap root = doc s.heap root) ∧
        ∀ (reordered : Object) (now' : Int), reordered.entries.Perm renderObject.entries →
          ∃ t', update e reordered now' s = .ok () t' ∧ doc t'.heap root = doc t.heap root := by
  obtain ⟨built, _, shown, read, same⟩ := (rootElement_ends payload channel {} empty_wellFormed).ok mount
  obtain ⟨wf, longer⟩ := calls.kept built.wf
  have bound : root < s.heap.length := Nat.lt_of_lt_of_le (built.wf.scheduled root built.task) longer
  refine ⟨⟨shown, read, same⟩, ?_⟩
  intro e renderObject now t returned
  obtain ⟨el, change, found, asked, updated⟩ := update_returned wf returned
  have after := updated_doc wf found updated root bound
  refine ⟨el, change, found, asked, change_merge_get? change, ?_, ?_, ?_⟩
  · intro path reached
    exact ⟨after.trans (docWith_at wf change path root bound reached),
      fun other ends => follow_unique wf root e other path ends reached⟩
  · intro detached
    exact after.trans (docWith_unreached wf change root bound detached)
  · intro reordered now' perm
    obtain ⟨t', returned', updated'⟩ := update_returns wf found ((changeOf_perm el perm).trans asked) now'
    exact ⟨t', returned', (updated_doc wf found updated' root bound).trans after.symm⟩

def samplePage : Json :=
  .map [("id", .string "r"), ("tag", .string "row"), ("children", .list [
    .map [("id", .string "x"), ("tag", .string "text"), ("props", .map [("data", .string "old")])]])]

def sampleProps (data : String) : Object := LinkedMap.ofList [("props", .map [("data", .string data)])]

theorem heap_refines_document_text : ∃ root mounted t change, ∃ path : List Step,
    rootElement samplePage "page" {} = .ok root mounted ∧
    update 2 (sampleProps "new") 5 mounted = .ok () t ∧ follow mounted.heap root path = some 2 ∧
    doc t.heap root = (doc mounted.heap root).modifyAt (Change.apply change) path := by
  have evaluated : returns (fun root mounted =>
      follow mounted.heap root [.child 0, .child 0] == some 2 &&
        returns (fun _ _ => true) (update 2 (sampleProps "new") 5 mounted))
      (rootElement samplePage "page" {}) = true := by decide +kernel
  obtain ⟨root, mounted, mount, later⟩ := returns_ok evaluated
  simp only [Bool.and_eq_true, beq_iff_eq] at later
  obtain ⟨place, returned⟩ := later
  obtain ⟨_, t, call, _⟩ := returns_ok returned
  obtain ⟨_, updates⟩ := heap_refines_document "page" samplePage root mounted mounted mount .start
  obtain ⟨el, change, _, _, _, here, _⟩ := updates 2 (sampleProps "new") 5 t call
  exact ⟨root, mounted, t, change, [.child 0, .child 0], mount, call, place, (here _ place).1⟩

end Refinement

end Sano.Render
