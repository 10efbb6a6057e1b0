import Sano.Base.LinkedMap

/-- A place in a tree of directories: the names from it up to the root. -/
abbrev Location (ν : Type) := List ν

namespace FileTree

inductive Segment (ν : Type) where
  | here
  | up
  | name (name : ν)
deriving DecidableEq

structure Path (ν : Type) where
  absolute : Bool
  segments : List (Segment ν)
deriving DecidableEq

inductive Node (ν : Type) where
  | directory
  | file (bytes : List UInt8)
  | link (target : Path ν)
deriving DecidableEq

structure Tree (ν : Type) [DecidableEq ν] where
  nodes : LinkedMap (Location ν) (Node ν)
  current : Location ν
  root : nodes.get? [] = some .directory
  parents : ∀ name place, nodes.get? (name :: place) ≠ none → nodes.get? place = some .directory

variable {ν : Type} [DecidableEq ν]

section Operations

def Tree.node (t : Tree ν) (place : Location ν) : Option (Node ν) := t.nodes.get? place

def Tree.isDirectory (t : Tree ν) (place : Location ν) : Bool := t.node place = some .directory

def Tree.link (t : Tree ν) (place : Location ν) : Option (Path ν) :=
  match t.node place with
  | some (.link target) => some target
  | _ => none

def Tree.put (t : Tree ν) : Location ν → Node ν → Option (Tree ν)
  | [], _ => none
  | name :: place, node =>
    if fits : t.nodes.get? place = some .directory ∧ t.nodes.get? (name :: place) ≠ some .directory then
      some {
        nodes := t.nodes.insert (name :: place) node
        current := t.current
        root := by simp [t.root]
        parents := by
          intro other below present
          rw [LinkedMap.get?_insert] at present ⊢
          by_cases inner : name :: place = below
          · subst inner
            have self : name :: place ≠ other :: name :: place := fun same => by simpa using congrArg List.length same
            rw [if_neg self] at present
            exact absurd (t.parents _ _ present) fits.2
          · rw [if_neg inner]
            by_cases same : name :: place = other :: below
            · obtain ⟨rfl, rfl⟩ := List.cons.inj same
              exact fits.1
            · rw [if_neg same] at present
              exact t.parents _ _ present }
    else none

def Tree.remove (t : Tree ν) : Location ν → Option (Tree ν)
  | [] => none
  | name :: place =>
    if bare : ∀ other ∈ t.nodes.keys, other.tail ≠ name :: place then
      some {
        nodes := t.nodes.remove (name :: place)
        current := t.current
        root := by simp [t.root]
        parents := by
          intro other below present
          rw [LinkedMap.get?_remove] at present ⊢
          split at present
          · exact absurd rfl present
          · have outer : name :: place ≠ below := by
              rintro rfl
              have member := LinkedMap.mem_keys.mpr (Option.ne_none_iff_exists'.mp present)
              exact bare _ member rfl
            rw [if_neg outer]
            exact t.parents _ _ present }
    else none

def Tree.empty : Tree ν where
  nodes := (∅ : LinkedMap (Location ν) (Node ν)).insert [] .directory
  current := []
  root := by simp
  parents := by simp

def Tree.build (entries : List (Location ν × Node ν)) : Option (Tree ν) :=
  entries.foldlM (fun t entry => t.put entry.1 entry.2) .empty

def Tree.origin (t : Tree ν) (path : Path ν) : Location ν := if path.absolute then [] else t.current

def Tree.enter (t : Tree ν) (follow : Path ν → Option (Location ν)) (place : Location ν) (segment : Segment ν) :
    Option (Location ν) :=
  if t.isDirectory place then
    match segment with
    | .here => some place
    | .up => some place.tail
    | .name name =>
      match t.link (name :: place) with
      | some target => follow target
      | none => some (name :: place)
  else none

def Tree.advance (t : Tree ν) : Nat → Location ν → Segment ν → Option (Location ν)
  | 0 => t.enter fun _ => none
  | links + 1 => t.enter fun target => target.segments.foldlM (t.advance links) (t.origin target)

def maxLinks : Nat := 40

def Tree.next (t : Tree ν) : Location ν → Segment ν → Option (Location ν) := t.advance maxLinks

def Tree.walk (t : Tree ν) (path : Path ν) : Option (Location ν) :=
  path.segments.foldlM t.next (t.origin path)

structure Cursor (ν : Type) [DecidableEq ν] where
  tree : Tree ν
  place : Location ν

def Cursor.start (c : Cursor ν) (path : Path ν) : Cursor ν := { c with place := c.tree.origin path }

def Cursor.change (c : Cursor ν) (segment : Segment ν) : Option (Cursor ν) :=
  match c.tree.next c.place segment with
  | some place => if c.tree.isDirectory place then some { c with place } else none
  | none => none

def Cursor.makeDirectory (c : Cursor ν) (segment : Segment ν) : Option (Cursor ν) :=
  match segment with
  | .name name =>
    if c.tree.node (name :: c.place) = none then
      (c.tree.put (name :: c.place) .directory).map fun tree => ⟨tree, name :: c.place⟩
    else c.change segment
  | _ => c.change segment

def Cursor.openFile (c : Cursor ν) (segment : Segment ν) : Option (Cursor ν) :=
  match c.tree.next c.place segment with
  | some place =>
    match c.tree.node place with
    | none => (c.tree.put place (.file [])).map fun tree => ⟨tree, place⟩
    | some (.file _) => some { c with place }
    | _ => none
  | none => none

def Cursor.write (c : Cursor ν) (change : List UInt8 → List UInt8) : Option (Cursor ν) :=
  match c.tree.node c.place with
  | some (.file bytes) => (c.tree.put c.place (.file (change bytes))).map fun tree => ⟨tree, c.place⟩
  | _ => none

end Operations

section Nodes

theorem put_node {t t' : Tree ν} {place : Location ν} {node : Node ν} (put : t.put place node = some t')
    (other : Location ν) : t'.node other = if place = other then some node else t.node other := by
  cases place with
  | nil => simp [Tree.put] at put
  | cons name place =>
    simp only [Tree.put] at put
    split at put
    · cases put
      exact LinkedMap.get?_insert _ _ _ _
    · cases put

theorem put_current {t t' : Tree ν} {place : Location ν} {node : Node ν} (put : t.put place node = some t') :
    t'.current = t.current := by
  cases place with
  | nil => simp [Tree.put] at put
  | cons name place =>
    simp only [Tree.put] at put
    split at put
    · cases put
      rfl
    · cases put

theorem remove_node {t t' : Tree ν} {place : Location ν} (removed : t.remove place = some t')
    (other : Location ν) : t'.node other = if place = other then none else t.node other := by
  cases place with
  | nil => simp [Tree.remove] at removed
  | cons name place =>
    simp only [Tree.remove] at removed
    split at removed
    · cases removed
      exact LinkedMap.get?_remove _ _ _
    · cases removed

end Nodes

section Growth

structure Grows (t t' : Tree ν) : Prop where
  current : t'.current = t.current
  directories : ∀ place, t.isDirectory place = true → t'.isDirectory place = true
  links : ∀ place, t'.link place = t.link place

theorem Grows.refl (t : Tree ν) : Grows t t := ⟨rfl, fun _ there => there, fun _ => rfl⟩

theorem Grows.trans {first second third : Tree ν} (early : Grows first second) (late : Grows second third) :
    Grows first third where
  current := late.current.trans early.current
  directories place there := late.directories place (early.directories place there)
  links place := (late.links place).trans (early.links place)

theorem Grows.origin {t t' : Tree ν} (grows : Grows t t') (path : Path ν) : t'.origin path = t.origin path := by
  simp [Tree.origin, grows.current]

theorem put_grows {t t' : Tree ν} {place : Location ν} {node : Node ν} (put : t.put place node = some t')
    (real : ∀ target, node ≠ .link target) (free : t.isDirectory place = false) (unlinked : t.link place = none) :
    Grows t t' where
  current := put_current put
  directories := by
    intro other there
    have apart : place ≠ other := by
      rintro rfl
      simp [free] at there
    simpa [Tree.isDirectory, put_node put, apart] using there
  links := by
    intro other
    by_cases same : place = other
    · subst same
      rw [unlinked]
      cases node with
      | link target => exact absurd rfl (real target)
      | directory => simp [Tree.link, put_node put]
      | file bytes => simp [Tree.link, put_node put]
    · simp [Tree.link, put_node put, same]

theorem enter_grows {t t' : Tree ν} (grows : Grows t t') {follow follow' : Path ν → Option (Location ν)}
    (agree : ∀ path place, follow path = some place → follow' path = some place) {place result : Location ν}
    {segment : Segment ν} (entered : t.enter follow place segment = some result) :
    t'.enter follow' place segment = some result := by
  unfold Tree.enter at entered ⊢
  split at entered
  next there =>
    rw [if_pos (grows.directories place there)]
    cases segment with
    | here => exact entered
    | up => exact entered
    | name name =>
      simp only [grows.links] at entered ⊢
      cases found : t.link (name :: place) with
      | none =>
        rw [found] at entered
        exact entered
      | some target =>
        rw [found] at entered
        exact agree _ _ entered
  next => cases entered

theorem foldlM_agree {α β : Type} {f g : α → β → Option α} (agree : ∀ a b c, f a b = some c → g a b = some c)
    (steps : List β) {a c : α} (result : steps.foldlM f a = some c) : steps.foldlM g a = some c := by
  induction steps generalizing a with
  | nil => exact result
  | cons first rest ih =>
    rw [List.foldlM_cons] at result ⊢
    obtain ⟨b, here, later⟩ := Option.bind_eq_some_iff.mp result
    rw [agree _ _ _ here]
    exact ih later

theorem advance_grows {t t' : Tree ν} (grows : Grows t t') (links : Nat) {place result : Location ν}
    {segment : Segment ν} (advanced : t.advance links place segment = some result) :
    t'.advance links place segment = some result := by
  induction links generalizing place result segment with
  | zero => exact enter_grows grows (fun _ _ none => by cases none) advanced
  | succ links ih =>
    refine enter_grows grows (fun path end_ followed => ?_) advanced
    rw [grows.origin]
    exact foldlM_agree (fun _ _ _ => ih) _ followed

theorem next_grows {t t' : Tree ν} (grows : Grows t t') {place result : Location ν} {segment : Segment ν}
    (advanced : t.next place segment = some result) : t'.next place segment = some result :=
  advance_grows grows maxLinks advanced

theorem walk_grows {t t' : Tree ν} (grows : Grows t t') {path : Path ν} {place : Location ν}
    (walked : t.walk path = some place) : t'.walk path = some place := by
  unfold Tree.walk at walked ⊢
  rw [grows.origin]
  exact foldlM_agree (fun _ _ _ => next_grows grows) _ walked

end Growth

section Steps

structure Adds (t t' : Tree ν) : Prop extends Grows t t' where
  files : ∀ place bytes, t.node place = some (.file bytes) → t'.node place = some (.file bytes)

theorem Adds.refl (t : Tree ν) : Adds t t := ⟨.refl t, fun _ _ found => found⟩

theorem Adds.trans {first second third : Tree ν} (early : Adds first second) (late : Adds second third) :
    Adds first third :=
  ⟨early.toGrows.trans late.toGrows, fun place bytes found => late.files _ _ (early.files place bytes found)⟩

theorem put_adds {t t' : Tree ν} {place : Location ν} {node : Node ν} (put : t.put place node = some t')
    (real : ∀ target, node ≠ .link target) (absent : t.node place = none) : Adds t t' where
  toGrows := put_grows put real (by simp [Tree.isDirectory, absent]) (by simp [Tree.link, absent])
  files := by
    intro other bytes found
    have apart : place ≠ other := by
      rintro rfl
      simp [absent] at found
    rw [put_node put, if_neg apart, found]

theorem change_spec {c c' : Cursor ν} {segment : Segment ν} (changed : c.change segment = some c') :
    c'.tree = c.tree ∧ c.tree.next c.place segment = some c'.place ∧ c'.tree.isDirectory c'.place = true := by
  unfold Cursor.change at changed
  split at changed
  next place found =>
    split at changed
    next there =>
      cases changed
      exact ⟨rfl, found, there⟩
    next => cases changed
  next => cases changed

theorem next_directory {t : Tree ν} {place result : Location ν} {segment : Segment ν}
    (entered : t.next place segment = some result) : t.isDirectory place = true := by
  simp only [Tree.next, maxLinks, Tree.advance, Tree.enter] at entered
  split at entered
  next there => exact there
  next => cases entered

theorem next_name {t : Tree ν} {place : Location ν} {name : ν} (there : t.isDirectory place = true)
    (unlinked : t.link (name :: place) = none) : t.next place (.name name) = some (name :: place) := by
  simp [Tree.next, maxLinks, Tree.advance, Tree.enter, there, unlinked]

theorem put_parent {t t' : Tree ν} {name : ν} {place : Location ν} {node : Node ν}
    (put : t.put (name :: place) node = some t') : t.isDirectory place = true := by
  simp only [Tree.put] at put
  split at put
  next fits => exact decide_eq_true fits.1
  next => cases put

theorem makeDirectory_spec {c c' : Cursor ν} {segment : Segment ν} (made : c.makeDirectory segment = some c') :
    Adds c.tree c'.tree ∧ c'.tree.next c.place segment = some c'.place ∧ c'.tree.isDirectory c'.place = true := by
  have old (changed : c.change segment = some c') : Adds c.tree c'.tree ∧
      c'.tree.next c.place segment = some c'.place ∧ c'.tree.isDirectory c'.place = true := by
    obtain ⟨same, found, there⟩ := change_spec changed
    rw [same] at there ⊢
    exact ⟨.refl _, found, there⟩
  cases segment with
  | here => exact old made
  | up => exact old made
  | name name =>
    simp only [Cursor.makeDirectory] at made
    split at made
    next absent =>
      obtain ⟨tree, put, rfl⟩ := Option.map_eq_some_iff.mp made
      have adds := put_adds put (fun _ => by simp) absent
      have unlinked : tree.link (name :: c.place) = none := by simp [Tree.link, put_node put]
      refine ⟨adds, next_name (adds.directories _ (put_parent put)) unlinked, ?_⟩
      simp [Tree.isDirectory, put_node put]
    next => exact old made

theorem makeDirectory_new {c c' : Cursor ν} {segment : Segment ν} (made : c.makeDirectory segment = some c')
    (other : Location ν) :
    c'.tree.node other = c.tree.node other ∨
      c.tree.node other = none ∧ c'.tree.isDirectory other = true ∧ other = c'.place := by
  cases segment with
  | here => exact .inl (by rw [(change_spec made).1])
  | up => exact .inl (by rw [(change_spec made).1])
  | name name =>
    simp only [Cursor.makeDirectory] at made
    split at made
    next absent =>
      obtain ⟨tree, put, rfl⟩ := Option.map_eq_some_iff.mp made
      by_cases new : name :: c.place = other
      · subst new
        exact .inr ⟨absent, by simp [Tree.isDirectory, put_node put], rfl⟩
      · exact .inl (by simp [put_node put, new])
    next => exact .inl (by rw [(change_spec made).1])

theorem makeDirectories_spec (segments : List (Segment ν)) {c c' : Cursor ν}
    (made : segments.foldlM Cursor.makeDirectory c = some c') :
    Adds c.tree c'.tree ∧ segments.foldlM c'.tree.next c.place = some c'.place := by
  induction segments generalizing c with
  | nil =>
    cases made
    exact ⟨.refl _, rfl⟩
  | cons segment rest ih =>
    rw [List.foldlM_cons] at made
    obtain ⟨middle, here, later⟩ := Option.bind_eq_some_iff.mp made
    obtain ⟨first, found, _⟩ := makeDirectory_spec here
    obtain ⟨more, walked⟩ := ih later
    refine ⟨first.trans more, ?_⟩
    rw [List.foldlM_cons, next_grows more.toGrows found]
    exact walked

theorem makeDirectories_end (segments : List (Segment ν)) {c c' : Cursor ν}
    (there : c.tree.isDirectory c.place = true ∨ segments ≠ [])
    (made : segments.foldlM Cursor.makeDirectory c = some c') : c'.tree.isDirectory c'.place = true := by
  induction segments generalizing c with
  | nil =>
    cases made
    simpa using there
  | cons segment rest ih =>
    rw [List.foldlM_cons] at made
    obtain ⟨middle, here, later⟩ := Option.bind_eq_some_iff.mp made
    exact ih (.inl (makeDirectory_spec here).2.2) later

/-- Nothing but missing directories along the path is made. -/
theorem makeDirectories_new (segments : List (Segment ν)) {c c' : Cursor ν}
    (made : segments.foldlM Cursor.makeDirectory c = some c') (other : Location ν) :
    c'.tree.node other = c.tree.node other ∨
      c.tree.node other = none ∧ c'.tree.isDirectory other = true ∧
        ∃ before, before <+: segments ∧ before.foldlM c'.tree.next c.place = some other := by
  induction segments generalizing c with
  | nil =>
    cases made
    exact .inl rfl
  | cons segment rest ih =>
    rw [List.foldlM_cons] at made
    obtain ⟨middle, here, later⟩ := Option.bind_eq_some_iff.mp made
    have found := (makeDirectory_spec here).2.1
    have more := (makeDirectories_spec rest later).1
    have onward := next_grows more.toGrows found
    rcases ih later with same | ⟨absent, there, before, part, reached⟩
    · rcases makeDirectory_new here other with old | ⟨absent, there, last⟩
      · exact .inl (same.trans old)
      · refine .inr ⟨absent, more.directories _ there, [segment], ?_, ?_⟩
        · exact ⟨rest, rfl⟩
        · simp [onward, last]
    · rcases makeDirectory_new here other with old | ⟨_, made, _⟩
      · rw [old] at absent
        refine .inr ⟨absent, there, segment :: before, List.prefix_cons_inj segment |>.mpr part, ?_⟩
        rw [List.foldlM_cons, onward]
        exact reached
      · simp [Tree.isDirectory, absent] at made

theorem node_below {t : Tree ν} {place : Location ν} (free : t.isDirectory place = false) (name : ν) :
    t.node (name :: place) = none := by
  by_contra present
  rw [Tree.isDirectory, decide_eq_false_iff_not] at free
  exact free (t.parents name place present)

theorem nodes_below {t : Tree ν} {place : Location ν} (free : t.isDirectory place = false) (name : ν) :
    (names : List ν) → t.node (name :: names ++ place) = none
  | [] => node_below free name
  | other :: names => by
    have closed : t.isDirectory (other :: names ++ place) = false := by
      rw [Tree.isDirectory, nodes_below free other names]
      rfl
    exact node_below closed name

/-- Directories that are made along plain names are new from the first missing one on. -/
theorem makeDirectories_fresh {t : Tree ν} : (segments : List (Segment ν)) →
    (∀ segment ∈ segments, segment ≠ .here ∧ segment ≠ .up) → {c c' : Cursor ν} → Grows t c.tree →
    segments.foldlM Cursor.makeDirectory c = some c' → c.tree = t ∨ t.isDirectory c.place = false →
    c'.tree = t ∨ t.isDirectory c'.place = false
  | [], _, _, _, _, made, before => by
    cases made
    exact before
  | .here :: _, plain, _, _, _, _, _ => absurd rfl (plain .here List.mem_cons_self).1
  | .up :: _, plain, _, _, _, _, _ => absurd rfl (plain .up List.mem_cons_self).2
  | .name name :: rest, plain, c, c', grows, made, before => by
    rw [List.foldlM_cons] at made
    obtain ⟨middle, here, later⟩ := Option.bind_eq_some_iff.mp made
    have grown := grows.trans (makeDirectory_spec here).1.toGrows
    refine makeDirectories_fresh rest (fun segment member => plain segment (List.mem_cons_of_mem _ member)) grown later ?_
    simp only [Cursor.makeDirectory] at here
    split at here
    case isTrue absent =>
      obtain ⟨tree, _, rfl⟩ := Option.map_eq_some_iff.mp here
      refine .inr (Bool.eq_false_iff.mpr fun there => ?_)
      have still := grows.directories _ there
      simp [Tree.isDirectory, absent] at still
    case isFalse =>
      obtain ⟨same, found, _⟩ := change_spec here
      rcases before with old | free
      · exact .inl (same.trans old)
      · -- below a new directory there are no links
        have absent := node_below free name
        have unlinked : c.tree.link (name :: c.place) = none := by
          rw [grows.links]
          simp [Tree.link, absent]
        rw [next_name (next_directory found) unlinked] at found
        rw [← Option.some.inj found]
        exact .inr (by simp [Tree.isDirectory, absent])

/-- Where a path leads that starts at a directory, as the names from there up: `none` if it climbs above it on the way. -/
def lexical : List ν → List (Segment ν) → Option (List ν)
  | names, [] => some names
  | names, .here :: rest => lexical names rest
  | [], .up :: _ => none
  | _ :: names, .up :: rest => lexical names rest
  | names, .name name :: rest => lexical (name :: names) rest

theorem walk_lexical {t : Tree ν} {root : Location ν} (unlinked : ∀ name names, t.link (name :: names ++ root) = none) :
    (segments : List (Segment ν)) → {names below : List ν} → {place : Location ν} →
    segments.foldlM t.next (names ++ root) = some place → lexical names segments = some below → place = below ++ root
  | [], _, _, _, walked, down => by
    cases walked
    cases down
    rfl
  | segment :: rest, names, below, place, walked, down => by
    rw [List.foldlM_cons] at walked
    obtain ⟨middle, here, later⟩ := Option.bind_eq_some_iff.mp walked
    have there := next_directory here
    cases segment with
    | here =>
      have stays : middle = names ++ root := by simpa [Tree.next, maxLinks, Tree.advance, Tree.enter, there] using here.symm
      subst stays
      exact walk_lexical unlinked rest later down
    | up =>
      have climbs : middle = (names ++ root).tail := by
        simpa [Tree.next, maxLinks, Tree.advance, Tree.enter, there] using here.symm
      subst climbs
      cases names with
      | nil => cases down
      | cons name names => exact walk_lexical unlinked rest later down
    | name name =>
      have enters : middle = name :: names ++ root :=
        Option.some.inj (here.symm.trans (next_name there (unlinked name names)))
      subst enters
      exact walk_lexical unlinked rest later down

theorem openFile_cases {c c' : Cursor ν} {segment : Segment ν} (opened : c.openFile segment = some c') :
    c.tree.next c.place segment = some c'.place ∧
      ((c.tree.node c'.place = none ∧ c.tree.put c'.place (.file []) = some c'.tree) ∨
        (∃ bytes, c.tree.node c'.place = some (.file bytes)) ∧ c'.tree = c.tree) := by
  unfold Cursor.openFile at opened
  split at opened
  next place found =>
    split at opened
    next absent =>
      obtain ⟨tree, put, rfl⟩ := Option.map_eq_some_iff.mp opened
      exact ⟨found, .inl ⟨absent, put⟩⟩
    next bytes present =>
      cases opened
      exact ⟨found, .inr ⟨⟨bytes, present⟩, rfl⟩⟩
    next => cases opened
  next => cases opened

theorem openFile_spec {c c' : Cursor ν} {segment : Segment ν} (opened : c.openFile segment = some c') :
    Adds c.tree c'.tree ∧ c'.tree.next c.place segment = some c'.place ∧
      ∃ bytes, c'.tree.node c'.place = some (.file bytes) := by
  obtain ⟨found, ⟨absent, put⟩ | ⟨present, same⟩⟩ := openFile_cases opened
  · have adds := put_adds put (fun _ => by simp) absent
    exact ⟨adds, next_grows adds.toGrows found, [], by simp [put_node put]⟩
  · rw [same]
    exact ⟨.refl _, found, present⟩

theorem openFile_here (c : Cursor ν) : c.openFile .here = none := by
  simp only [Cursor.openFile, Tree.next, maxLinks, Tree.advance, Tree.enter]
  by_cases there : c.tree.isDirectory c.place = true
  · have found : c.tree.node c.place = some .directory := by simpa [Tree.isDirectory] using there
    simp [there, found]
  · simp [there]

theorem write_spec {c c' : Cursor ν} {change : List UInt8 → List UInt8} (written : c.write change = some c') :
    Grows c.tree c'.tree ∧ c'.place = c.place ∧ ∃ bytes, c.tree.node c.place = some (.file bytes) ∧
      ∀ other, c'.tree.node other = if c.place = other then some (.file (change bytes)) else c.tree.node other := by
  unfold Cursor.write at written
  split at written
  next bytes found =>
    obtain ⟨tree, put, rfl⟩ := Option.map_eq_some_iff.mp written
    have grows := put_grows put (fun _ => by simp) (by simp [Tree.isDirectory, found]) (by simp [Tree.link, found])
    exact ⟨grows, rfl, bytes, found, put_node put⟩
  next => cases written

theorem write_possible {c : Cursor ν} {bytes : List UInt8} (found : c.tree.node c.place = some (.file bytes))
    (change : List UInt8 → List UInt8) : ∃ c', c.write change = some c' := by
  obtain ⟨tree, place⟩ := c
  simp only [Cursor.write] at found ⊢
  cases place with
  | nil =>
    have root : tree.node [] = some .directory := tree.root
    simp [root] at found
  | cons name parent =>
    have fits : tree.nodes.get? parent = some .directory ∧ tree.nodes.get? (name :: parent) ≠ some .directory := by
      refine ⟨tree.parents name parent ?_, ?_⟩ <;> simp [show tree.nodes.get? (name :: parent) = _ from found]
    simp [found, Tree.put, fits]

end Steps

end FileTree
