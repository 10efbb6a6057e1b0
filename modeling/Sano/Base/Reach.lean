import Mathlib.Data.Set.Finite.Basic
import Sano.Base.FileTree

namespace FileTree

variable {ν : Type} [DecidableEq ν]

section Additions

theorem put_possible {t : Tree ν} {name : ν} {place : Location ν} (there : t.isDirectory place = true)
    (absent : t.node (name :: place) = none) (node : Node ν) : ∃ t', t.put (name :: place) node = some t' := by
  have fits : t.nodes.get? place = some .directory ∧ t.nodes.get? (name :: place) ≠ some .directory :=
    ⟨of_decide_eq_true there, by simp [show t.nodes.get? (name :: place) = none from absent]⟩
  simp [Tree.put, fits]

structure Includes (t t' : Tree ν) : Prop where
  current : t'.current = t.current
  nodes : ∀ place node, t.node place = some node → t'.node place = some node

theorem put_includes {t t' : Tree ν} {place : Location ν} {node : Node ν} (put : t.put place node = some t')
    (absent : t.node place = none) : Includes t t' where
  current := put_current put
  nodes := by
    intro other found present
    rw [put_node put, if_neg]
    · exact present
    · rintro rfl
      simp [absent] at present

theorem Includes.trans {first second third : Tree ν} (early : Includes first second) (late : Includes second third) :
    Includes first third :=
  ⟨late.current.trans early.current, fun place node found => late.nodes _ _ (early.nodes place node found)⟩

theorem Includes.isDirectory {t t' : Tree ν} (includes : Includes t t') {place : Location ν}
    (there : t.isDirectory place = true) : t'.isDirectory place = true :=
  decide_eq_true (includes.nodes _ _ (of_decide_eq_true there))

theorem Includes.link {t t' : Tree ν} (includes : Includes t t') {place : Location ν} (present : t.node place ≠ none) :
    t'.link place = t.link place := by
  obtain ⟨node, found⟩ := Option.ne_none_iff_exists'.mp present
  simp [Tree.link, found, includes.nodes _ _ found]

theorem enter_directory {t : Tree ν} {follow : Path ν → Option (Location ν)} {place result : Location ν}
    {segment : Segment ν} (entered : t.enter follow place segment = some result) : t.isDirectory place = true := by
  unfold Tree.enter at entered
  split at entered
  next there => exact there
  next => cases entered

theorem enter_includes {t t' : Tree ν} (includes : Includes t t') {follow follow' : Path ν → Option (Location ν)}
    (agree : ∀ path place, t.node place ≠ none → follow path = some place → follow' path = some place)
    {place result : Location ν} {segment : Segment ν} (present : t.node result ≠ none)
    (entered : t.enter follow place segment = some result) : t'.enter follow' place segment = some result := by
  have there := enter_directory entered
  simp only [Tree.enter, there, includes.isDirectory there, if_true] at entered ⊢
  cases segment with
  | here => exact entered
  | up => exact entered
  | name name =>
    cases found : t.link (name :: place) with
    | none =>
      simp only [found] at entered
      obtain rfl := Option.some.inj entered
      simp [includes.link present, found]
    | some target =>
      have linked : t.node (name :: place) ≠ none := fun absent => by simp [Tree.link, absent] at found
      simp only [found] at entered
      simpa [includes.link linked, found] using agree target result present entered

theorem advance_directory {t : Tree ν} {links : Nat} {place result : Location ν} {segment : Segment ν}
    (advanced : t.advance links place segment = some result) : t.isDirectory place = true := by
  cases links <;> exact enter_directory advanced

/-- On a way to what is there, every step leads to what is there. -/
theorem foldlM_includes {t t' : Tree ν} {links : Nat}
    (agree : ∀ place segment result, t.node result ≠ none → t.advance links place segment = some result →
      t'.advance links place segment = some result)
    (segments : List (Segment ν)) {place result : Location ν} (present : t.node result ≠ none)
    (walked : segments.foldlM (t.advance links) place = some result) :
    segments.foldlM (t'.advance links) place = some result := by
  induction segments generalizing place with
  | nil => exact walked
  | cons segment rest ih =>
    rw [List.foldlM_cons] at walked ⊢
    obtain ⟨middle, here, later⟩ := Option.bind_eq_some_iff.mp walked
    have passed : t.node middle ≠ none := by
      cases rest with
      | nil =>
        cases later
        exact present
      | cons second rest =>
        obtain ⟨_, onward, _⟩ := Option.bind_eq_some_iff.mp later
        have there : t.node middle = some .directory := of_decide_eq_true (advance_directory onward)
        simp [there]
    rw [agree place segment middle passed here]
    exact ih later

theorem advance_includes {t t' : Tree ν} (includes : Includes t t') (links : Nat) (place : Location ν)
    (segment : Segment ν) (result : Location ν) (present : t.node result ≠ none)
    (advanced : t.advance links place segment = some result) : t'.advance links place segment = some result := by
  induction links generalizing place segment result with
  | zero => exact enter_includes includes (fun _ _ _ none => by cases none) present advanced
  | succ links ih =>
    refine enter_includes includes (fun path end_ there followed => ?_) present advanced
    have origin : t'.origin path = t.origin path := by simp [Tree.origin, includes.current]
    rw [origin]
    exact foldlM_includes ih _ there followed

theorem isDirectory_parent {t : Tree ν} {name : ν} {place : Location ν}
    (there : t.isDirectory (name :: place) = true) : t.isDirectory place = true := by
  have found : t.node (name :: place) = some .directory := of_decide_eq_true there
  have parent : t.node place = some .directory := t.parents name place fun absent => by
    rw [show t.nodes.get? (name :: place) = some .directory from found] at absent
    cases absent
  exact decide_eq_true parent

theorem unlinked_of_isDirectory {t : Tree ν} {place : Location ν} (there : t.isDirectory place = true) :
    t.link place = none := by
  have found : t.node place = some .directory := of_decide_eq_true there
  simp [Tree.link, found]

theorem enter_name {t : Tree ν} (follow : Path ν → Option (Location ν)) {name : ν} {place : Location ν}
    (there : t.isDirectory place = true) :
    t.enter follow place (.name name) = ((t.link (name :: place)).map follow).getD (some (name :: place)) := by
  simp only [Tree.enter, there, if_true]
  cases t.link (name :: place) <;> rfl

theorem advance_child {t : Tree ν} {name : ν} {place : Location ν} (there : t.isDirectory (name :: place) = true)
    (links : Nat) : t.advance links place (.name name) = some (name :: place) := by
  have unlinked := unlinked_of_isDirectory there
  cases links <;> simp [Tree.advance, enter_name _ (isDirectory_parent there), unlinked]

/-- The names down to a directory lead to it. -/
theorem descend {t : Tree ν} (links : Nat) (place : Location ν) (there : t.isDirectory place = true) :
    (place.reverse.map Segment.name).foldlM (t.advance links) [] = some place := by
  induction place with
  | nil => rfl
  | cons name place ih =>
    rw [List.reverse_cons, List.map_append, List.foldlM_append, ih (isDirectory_parent there)]
    simpa using advance_child there links

theorem next_link {t : Tree ν} {name : ν} {place target : Location ν} (there : t.isDirectory place = true)
    (found : t.node (name :: place) = some (.link ⟨true, target.reverse.map .name⟩))
    (real : t.isDirectory target = true) : t.next place (.name name) = some target := by
  have link : t.link (name :: place) = some ⟨true, target.reverse.map .name⟩ := by simp [Tree.link, found]
  simp only [Tree.next, maxLinks, Tree.advance, enter_name _ there, link, Option.map_some, Option.getD_some]
  exact descend 39 target real

end Additions

section Reach

variable (label : Nat → ν) (injective : Function.Injective label)

include injective

theorem exists_unused (t : Tree ν) (place : Location ν) (names : List ν) :
    ∃ n, label n ∉ names ∧ t.node (label n :: place) = none := by
  have used : ∀ name, t.node (name :: place) ≠ none → name ∈ t.nodes.keys.flatten := by
    intro name present
    have member := LinkedMap.mem_keys.mpr (Option.ne_none_iff_exists'.mp present)
    exact List.mem_flatten.mpr ⟨_, member, List.mem_cons_self⟩
  obtain ⟨name, ⟨n, rfl⟩, unused⟩ :=
    (Set.infinite_range_of_injective injective).exists_notMem_finset (names ++ t.nodes.keys.flatten).toFinset
  simp only [List.mem_toFinset, List.mem_append, not_or] at unused
  refine ⟨n, unused.1, ?_⟩
  by_contra present
  exact unused.2 (used _ present)

structure Reaching (names : List ν) (segments : List (Segment ν)) (t : Tree ν) (place : Location ν) : Prop where
  there : t.isDirectory place = true
  file : ∃ target, segments.foldlM t.next place = some target ∧ t.node target = some (.file [])
  unnamed : ∀ other ∈ names, t.node [other] = none

omit injective in
theorem Reaching.includes {names : List ν} {segments : List (Segment ν)} {t t' : Tree ν} {place : Location ν}
    (reaching : Reaching names segments t place) (includes : Includes t t') :
    ∃ target, segments.foldlM t'.next place = some target ∧ t'.node target = some (.file []) := by
  obtain ⟨target, walked, found⟩ := reaching.file
  refine ⟨target, ?_, includes.nodes _ _ found⟩
  exact foldlM_includes (advance_includes includes maxLinks) segments (by simp [found]) walked

omit injective in
theorem Reaching.cons {names : List ν} {segments : List (Segment ν)} {t t' : Tree ν} {place start : Location ν}
    (reaching : Reaching names segments t place) (includes : Includes t t') (there : t'.isDirectory start = true)
    {segment : Segment ν} (entered : t'.next start segment = some place)
    (unnamed : ∀ other ∈ names, t'.node [other] = t.node [other]) :
    Reaching names (segment :: segments) t' start where
  there := there
  file := by
    obtain ⟨target, walked, found⟩ := reaching.includes includes
    exact ⟨target, by simpa [entered] using walked, found⟩
  unnamed other member := (unnamed other member).trans (reaching.unnamed other member)

theorem reaching_up {names : List ν} {segments : List (Segment ν)} {t : Tree ν} {place : Location ν}
    (reaching : Reaching names segments t place) : ∃ t' start, Reaching names (.up :: segments) t' start := by
  obtain ⟨n, apart, absent⟩ := exists_unused label injective t place names
  obtain ⟨t', made⟩ := put_possible reaching.there absent .directory
  have there : t'.isDirectory (label n :: place) = true := by simp [Tree.isDirectory, put_node made]
  refine ⟨t', label n :: place, reaching.cons (put_includes made absent) there ?_ ?_⟩
  · simp [Tree.next, maxLinks, Tree.advance, Tree.enter, there]
  · intro other member
    rw [put_node made, if_neg]
    intro same
    rw [(List.cons.inj same).1] at apart
    exact apart member

theorem reaching_name {names : List ν} {segments : List (Segment ν)} {t : Tree ν} {place : Location ν}
    (reaching : Reaching names segments t place) (name : ν) :
    ∃ t' start, Reaching names (.name name :: segments) t' start := by
  have root : t.isDirectory [] = true := decide_eq_true t.root
  obtain ⟨n, apart, absent⟩ := exists_unused label injective t [] names
  obtain ⟨middle, made⟩ := put_possible root absent .directory
  have bare : t.node [name, label n] = none := by
    by_contra present
    have parent := t.parents _ _ present
    simp [Tree.node, parent] at absent
  have below : middle.node [name, label n] = none := by simpa [put_node made] using bare
  have fresh : middle.isDirectory [label n] = true := by simp [Tree.isDirectory, put_node made]
  obtain ⟨t', put⟩ := put_possible fresh below (.link ⟨true, place.reverse.map .name⟩)
  have includes := (put_includes made absent).trans (put_includes put below)
  have there : t'.isDirectory [label n] = true := by simp [Tree.isDirectory, put_node put, put_node made]
  refine ⟨t', [label n], reaching.cons includes there ?_ ?_⟩
  · exact next_link there (by simp [put_node put]) (includes.isDirectory reaching.there)
  · intro other member
    have new : label n ≠ other := by
      rintro rfl
      exact apart member
    simp [put_node put, put_node made, new]

theorem reaching_last (names : List ν) (name : ν) : ∃ t start, Reaching names [.name name] t start := by
  have root : (Tree.empty : Tree ν).isDirectory [] = true := decide_eq_true Tree.empty.root
  obtain ⟨n, apart, absent⟩ := exists_unused label injective .empty [] names
  obtain ⟨middle, made⟩ := put_possible root absent .directory
  have fresh : middle.isDirectory [label n] = true := by simp [Tree.isDirectory, put_node made]
  have below : middle.node [name, label n] = none := by
    rw [put_node made, if_neg (by simp)]
    rfl
  obtain ⟨t, put⟩ := put_possible fresh below (.file [])
  have there : t.isDirectory [label n] = true := by simp [Tree.isDirectory, put_node put, put_node made]
  refine ⟨t, [label n], there, ⟨[name, label n], ?_, by simp [put_node put]⟩, ?_⟩
  · have unlinked : t.link [name, label n] = none := by simp [Tree.link, put_node put]
    simp [next_name there unlinked]
  · intro other member
    have new : label n ≠ other := by
      rintro rfl
      exact apart member
    rw [put_node put, if_neg (by simp), put_node made, if_neg (by simpa using new)]
    rfl

/-- Whatever the segments before the last name are, there is a tree in which they
    lead from some directory to a file. -/
theorem exists_reaching (names : List ν) (name : ν) (segments : List (Segment ν)) :
    ∃ t start, Reaching names (segments ++ [.name name]) t start := by
  induction segments with
  | nil => exact reaching_last label injective names name
  | cons segment segments ih =>
    obtain ⟨t, place, reaching⟩ := ih
    cases segment with
    | here =>
      refine ⟨t, place, reaching.cons ⟨rfl, fun _ _ found => found⟩ reaching.there ?_ fun _ _ => rfl⟩
      simp [Tree.next, maxLinks, Tree.advance, Tree.enter, reaching.there]
    | up => exact reaching_up label injective reaching
    | name other => exact reaching_name label injective reaching other

/-- Also from the root by one name, while names that are not at the root lead nowhere. -/
theorem exists_reached (names : List ν) (name : ν) (segments : List (Segment ν)) :
    ∃ (t : Tree ν) (n : Nat),
      (∃ target, (.name (label n) :: (segments ++ [.name name])).foldlM t.next [] = some target ∧
        t.node target = some (.file [])) ∧
      ∀ other ∈ names, t.node [other] = none := by
  obtain ⟨t, start, reaching⟩ := exists_reaching label injective names name segments
  obtain ⟨n, apart, absent⟩ := exists_unused label injective t [] names
  have root : t.isDirectory [] = true := decide_eq_true t.root
  obtain ⟨t', put⟩ := put_possible root absent (.link ⟨true, start.reverse.map .name⟩)
  have includes := put_includes put absent
  obtain ⟨target, walked, found⟩ := reaching.includes includes
  have entered : t'.next [] (.name (label n)) = some start :=
    next_link (includes.isDirectory root) (by simp [put_node put]) (includes.isDirectory reaching.there)
  refine ⟨t', n, ⟨target, by simpa [entered] using walked, found⟩, fun other member => ?_⟩
  have new : label n ≠ other := by
    rintro rfl
    exact apart member
  simpa [put_node put, new] using reaching.unnamed other member

end Reach

section Nowhere

/-- Names that are not at the root do not lead from it to anything else. -/
theorem walk_unnamed {t : Tree ν} (segments : List (Segment ν)) {place result : Location ν}
    (start : place = [] ∨ t.node place = none) (unnamed : ∀ name, .name name ∈ segments → t.node [name] = none)
    (walked : segments.foldlM t.next place = some result) : result = [] ∨ t.node result = none := by
  induction segments generalizing place with
  | nil =>
    cases walked
    exact start
  | cons segment rest ih =>
    rw [List.foldlM_cons] at walked
    obtain ⟨middle, here, later⟩ := Option.bind_eq_some_iff.mp walked
    have there : t.node place = some .directory := of_decide_eq_true (advance_directory here)
    have atRoot : place = [] := by simpa [there] using start
    subst atRoot
    refine ih ?_ (fun name member => unnamed name (List.mem_cons_of_mem _ member)) later
    cases segment with
    | here =>
      simp only [Tree.next, maxLinks, Tree.advance, Tree.enter, Tree.isDirectory, there, decide_true, if_true] at here
      exact .inl (Option.some.inj here).symm
    | up =>
      simp only [Tree.next, maxLinks, Tree.advance, Tree.enter, Tree.isDirectory, there, decide_true, if_true] at here
      exact .inl (Option.some.inj here).symm
    | name name =>
      have absent := unnamed name List.mem_cons_self
      rw [next_name (decide_eq_true there) (by simp [Tree.link, absent])] at here
      obtain rfl := Option.some.inj here
      exact .inr absent

end Nowhere

end FileTree
