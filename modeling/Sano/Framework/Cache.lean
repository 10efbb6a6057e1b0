import Sano.Framework.Bundle

namespace Sano.Framework

open FileTree

section Contents

def Bundle.files (b : Bundle) : List ArchiveFile :=
  if extension b.url = ".js" then [] else (b.archive.getD []).filter ArchiveFile.isFile

def Bundle.HasFile (b : Bundle) (t : FileTree.Tree String) (item : ArchiveFile) : Prop :=
  ∃ place ∈ item.placeIn t b.assetsPath,
    (∃ root ∈ t.walk (toPath b.assetsPath), root <:+ place) ∧ t.node place = some (.file item.content)

instance (b : Bundle) (t : FileTree.Tree String) (item : ArchiveFile) : Decidable (b.HasFile t item) :=
  inferInstanceAs (Decidable (∃ place ∈ _, _))

def Bundle.Complete (b : Bundle) (t : FileTree.Tree String) : Prop := ∀ item ∈ b.files, b.HasFile t item

instance (b : Bundle) (t : FileTree.Tree String) : Decidable (b.Complete t) :=
  inferInstanceAs (Decidable (∀ item ∈ _, _))

end Contents

section Conditions

def ArchiveFile.below (item : ArchiveFile) : Option (List String) :=
  if isAbsolute item.name then none else lexical [] (toPath item.name).segments

def Bundle.Inward (b : Bundle) : Prop :=
  (∀ segment ∈ (toPath b.assetsPath).segments, segment ≠ .here ∧ segment ≠ .up) ∧
    ∀ item ∈ b.archive.getD [], ∃ below ∈ item.below, item.isFile = true →
      below ≠ [] ∧ ∀ other ∈ b.archive.getD [], other.isFile = true → other.below = some below →
        other.content = item.content

instance (b : Bundle) : Decidable b.Inward := inferInstanceAs (Decidable (_ ∧ ∀ item ∈ _, ∃ below ∈ _, _))

def Bundle.isEmpty (b : Bundle) (t : FileTree.Tree String) : Bool :=
  (t.walk (toPath b.assetsPath)).any fun root => t.isDirectory root && t.nodes.keys.all fun other => other.tail ≠ root

def Device.atWork (s : Device) : Bool :=
  match s.phase with
  | .running todo => !todo.isEmpty && !todo.contains .check
  | _ => false

def Waits (b : Bundle) (s : Device) : Prop := s.deletes ≠ 0 ∧ b.isEmpty s.cursor.tree = true

instance (b : Bundle) (s : Device) : Decidable (Waits b s) := inferInstanceAs (Decidable (_ ∧ _))

def Meets (b : Bundle) (s : Device) : Event → Prop
  | .resolve => True
  | .next works =>
    match s.phase with
    | .running (action :: rest) =>
      (action = .check → ¬ Waits b s) ∧
        ((if works then act b s.cursor action else none) = none → .check ∉ action :: rest →
          b.isPresent s.cursor.tree = false ∨ action.isGuarded = true ∧ b.isEmpty s.cursor.tree = true)
    | _ => True
  | .delete works =>
    if b.isEmpty s.cursor.tree then s.atWork = false ∧ b.isPresent (deleted b s.cursor.tree works) = false
    else works = true → removal s.cursor.tree (toPath b.assetsPath) = none
  | .halt => ¬ Waits b s ∧ (s.atWork = true → b.isPresent s.cursor.tree = false)

instance (b : Bundle) : (s : Device) → (event : Event) → Decidable (Meets b s event)
  | _, .resolve => isTrue trivial
  | ⟨_, .idle, _⟩, .next _ => isTrue trivial
  | ⟨_, .returned, _⟩, .next _ => isTrue trivial
  | ⟨_, .running [], _⟩, .next _ => isTrue trivial
  | ⟨_, .running (_ :: _), _⟩, .next _ => inferInstanceAs (Decidable ((_ = _ → ¬ Waits b _) ∧ (_ = _ → _ → _ ∨ _ ∧ _)))
  | s, .delete works => inferInstanceAs (Decidable (if b.isEmpty s.cursor.tree then _ ∧ _ else works = true → _ = _))
  | s, .halt => inferInstanceAs (Decidable (¬ Waits b s ∧ (_ → _)))

end Conditions

section Inside

def Bundle.Fresh (b : Bundle) (t : FileTree.Tree String) : Prop :=
  ∃ root, t.walk (toPath b.assetsPath) = some root ∧ ∀ name names, t.link (name :: names ++ root) = none

variable {b : Bundle}

theorem Bundle.Fresh.grows {t t' : FileTree.Tree String} (fresh : b.Fresh t) (grows : Grows t t') : b.Fresh t' := by
  obtain ⟨root, walked, unlinked⟩ := fresh
  refine ⟨root, walk_grows grows walked, fun name names => ?_⟩
  rw [grows.links, unlinked]

/-- A call that has found no version directory makes one along its path. -/
theorem makeDirectories_fresh_root {t : FileTree.Tree String} {c : Cursor String} (inward : b.Inward)
    (absent : b.isPresent t = false)
    (made : (toPath b.assetsPath).segments.foldlM Cursor.makeDirectory ⟨t, t.origin (toPath b.assetsPath)⟩ = some c) :
    b.Fresh c.tree := by
  obtain ⟨adds, walked⟩ := makeDirectories_spec _ made
  have there := makeDirectories_end _ (assets_start b t) made
  have reached : c.tree.walk (toPath b.assetsPath) = some c.place := by
    rw [FileTree.Tree.walk, adds.toGrows.origin]
    exact walked
  have free : t.isDirectory c.place = false := by
    rcases makeDirectories_fresh _ inward.1 (.refl t) made (.inl rfl) with same | free
    · rw [same] at there reached
      have present : b.isPresent t = true := by simp [Bundle.isPresent, reached, there]
      rw [absent] at present
      cases present
    · exact free
  refine ⟨c.place, reached, fun name names => ?_⟩
  rw [adds.toGrows.links, FileTree.Tree.link, nodes_below free name names]

theorem performAll_grows (commands : List Command) {c next : Cursor String} (done : performAll c commands = some next) :
    Grows c.tree next.tree := by
  induction commands generalizing c with
  | nil =>
    cases done
    exact .refl _
  | cons command rest ih =>
    rw [performAll, List.foldlM_cons] at done
    obtain ⟨middle, here, later⟩ := Option.bind_eq_some_iff.mp done
    exact (perform_grows here).trans (ih later)

theorem join_segments (b : Bundle) {item : ArchiveFile} {below : List String} (inside : item.below = some below) :
    toPath (join b.assetsPath item.name) =
        ⟨(toPath b.assetsPath).absolute, (toPath b.assetsPath).segments ++ (toPath item.name).segments⟩ ∧
      lexical [] (toPath item.name).segments = some below := by
  unfold ArchiveFile.below at inside
  split at inside
  case isTrue => cases inside
  case isFalse relative =>
    have relative : isAbsolute item.name = false := by simpa using relative
    refine ⟨?_, inside⟩
    by_cases unnamed : item.name = ""
    · simp [unnamed, join, isAbsolute, toPath, components]
    · exact toPath_join (assetsPath_ne_empty b) relative unnamed

theorem Bundle.Fresh.place {t : FileTree.Tree String} (fresh : b.Fresh t) :
    ∃ root, t.walk (toPath b.assetsPath) = some root ∧ ∀ (item : ArchiveFile) below place, item.below = some below →
      item.placeIn t b.assetsPath = some place → place = below ++ root := by
  obtain ⟨root, walked, unlinked⟩ := fresh
  refine ⟨root, walked, fun item below place inside found => ?_⟩
  obtain ⟨path, down⟩ := join_segments b inside
  have origin : t.origin (toPath (join b.assetsPath item.name)) = t.origin (toPath b.assetsPath) := by
    rw [FileTree.Tree.origin, path]
    rfl
  rw [ArchiveFile.placeIn, FileTree.Tree.walk, origin, path, List.foldlM_append] at found
  rw [FileTree.Tree.walk] at walked
  rw [walked, Option.bind_eq_bind, Option.bind_some] at found
  have start : (toPath item.name).segments.foldlM t.next ([] ++ root) = some place := found
  exact walk_lexical unlinked _ start down

/-- The first entry makes the version directory. -/
theorem entry_fresh (inward : b.Inward) {item : ArchiveFile} (member : item ∈ b.archive.getD []) {c next : Cursor String}
    (absent : b.isPresent c.tree = false) (done : performAll c (item.commands b.assetsPath) = some next) :
    b.Fresh next.tree := by
  obtain ⟨below, inside, strict⟩ := inward.2 item member
  obtain ⟨path, down⟩ := join_segments b inside
  have origin : c.tree.origin (toPath (join b.assetsPath item.name)) = c.tree.origin (toPath b.assetsPath) := by
    rw [FileTree.Tree.origin, path]
    rfl
  -- what is made first is the path of the directory
  have first {more : List (Segment String)} {reached : Cursor String}
      (made : ((toPath b.assetsPath).segments ++ more).foldlM Cursor.makeDirectory
        (c.start (toPath (join b.assetsPath item.name))) = some reached) : b.Fresh reached.tree := by
    rw [List.foldlM_append, Cursor.start, origin] at made
    obtain ⟨root, early, late⟩ := Option.bind_eq_some_iff.mp made
    exact (makeDirectories_fresh_root inward absent early).grows (makeDirectories_spec _ late).1.toGrows
  simp only [ArchiveFile.commands] at done
  cases kind : item.isFile with
  | false =>
    simp only [kind, Bool.false_eq_true, if_false] at done
    obtain ⟨_, made⟩ := createDirectory_steps done
    rw [path] at made
    exact first (by rw [path]; exact made)
  | true =>
    simp only [kind, if_true] at done
    rw [performAll_append] at done
    obtain ⟨opened, created, written⟩ := Option.bind_eq_some_iff.mp done
    obtain ⟨reached, made, opens⟩ := createFile_steps created
    have named : (toPath item.name).segments ≠ [] := by
      intro empty
      rw [empty] at down
      exact (strict kind).1 (Option.some.inj down).symm
    rw [show (toPath (join b.assetsPath item.name)).segments.dropLast =
      (toPath b.assetsPath).segments ++ (toPath item.name).segments.dropLast by
        rw [path, List.dropLast_append_of_ne_nil named]] at made
    exact ((first made).grows (openFile_spec opens).1.toGrows).grows (performAll_grows _ written)

end Inside

section Work

variable {b : Bundle}

def Bundle.Laid (b : Bundle) (t : FileTree.Tree String) : Prop :=
  ∀ item ∈ b.files, ∀ place ∈ item.placeIn t b.assetsPath,
    (∃ root ∈ t.walk (toPath b.assetsPath), root <:+ place) ∧
      ∀ other ∈ b.files, other.placeIn t b.assetsPath = some place → other.content = item.content

theorem mem_files {item : ArchiveFile} (member : item ∈ b.files) :
    extension b.url ≠ ".js" ∧ item ∈ b.archive.getD [] ∧ item.isFile = true := by
  unfold Bundle.files at member
  split at member
  case isTrue => cases member
  case isFalse other => exact ⟨other, List.mem_filter.mp member⟩

theorem Bundle.Fresh.laid {t : FileTree.Tree String} (fresh : b.Fresh t) (inward : b.Inward) : b.Laid t := by
  obtain ⟨root, walked, places⟩ := fresh.place
  intro item member place found
  obtain ⟨_, among, isFile⟩ := mem_files member
  obtain ⟨below, inside, strict⟩ := inward.2 item among
  have here := places item below place inside found
  refine ⟨⟨root, walked, below, here.symm⟩, fun other also same => ?_⟩
  obtain ⟨_, among', isFile'⟩ := mem_files also
  obtain ⟨below', inside', _⟩ := inward.2 other among'
  have agree : below' ++ root = below ++ root := (places other below' place inside' same).symm.trans here
  rw [List.append_cancel_right agree] at inside'
  exact (strict isFile).2 other among' isFile' inside'

theorem complete_of_written {t : FileTree.Tree String} {archive : List ArchiveFile}
    (decoded : b.archive = some archive) (written : Written t b.assetsPath archive) (laid : b.Laid t) :
    b.Complete t := by
  intro item member
  obtain ⟨script, among, isFile⟩ := mem_files member
  rw [decoded, Option.getD_some] at among
  obtain ⟨place, found, other, within, file, same, content⟩ := written item among isFile
  obtain ⟨inside, agree⟩ := laid item member place found
  have also : other ∈ b.files := by simp [Bundle.files, script, decoded, within, file]
  rw [agree other also same] at content
  exact ⟨place, found, inside, content⟩

theorem unpack_fresh (inward : b.Inward) {item : ArchiveFile} (member : item ∈ b.files) {c next : Cursor String}
    (before : b.isPresent c.tree = false ∨ b.Fresh c.tree) (done : actAll b c b.unpack = some next) :
    b.Fresh next.tree ∧ b.Complete next.tree := by
  obtain ⟨_, among, _⟩ := mem_files member
  cases decoded : b.archive with
  | none => simp [decoded] at among
  | some archive =>
    rw [Bundle.unpack, decoded, actAll_guarded] at done
    have fresh : b.Fresh next.tree := by
      rcases before with absent | fresh
      · cases archive with
        | nil => simp [decoded] at among
        | cons first rest =>
          change performAll c (first.commands b.assetsPath ++ rest.flatMap _) = some next at done
          rw [performAll_append] at done
          obtain ⟨middle, here, later⟩ := Option.bind_eq_some_iff.mp done
          exact (entry_fresh inward (by simp [decoded]) absent here).grows (performAll_grows _ later)
      · exact fresh.grows (performAll_grows _ done)
    exact ⟨fresh, complete_of_written decoded (zipDecoder_written done) (fresh.laid inward)⟩

theorem work_complete (inward : b.Inward) {c next : Cursor String} (absent : b.isPresent c.tree = false)
    (done : actAll b c b.work = some next) : b.Complete next.tree := by
  intro item member
  have script := (mem_files member).1
  unfold Bundle.work at done
  cases kind : b.kind with
  | asset =>
    simp only [kind, script, if_false] at done
    exact (unpack_fresh inward member (.inl absent) done).2 item member
  | network =>
    simp only [kind, script, if_false] at done
    rw [actAll_append, actAll_create] at done
    obtain ⟨made, created, later⟩ := Option.bind_eq_some_iff.mp done
    have fresh := makeDirectories_fresh_root inward absent (createDirectory_steps created).2
    exact (unpack_fresh inward member (.inr fresh) later).2 item member

theorem present_of_suffix (t : FileTree.Tree String) {place root : Location String} (part : root <:+ place)
    (present : t.node place ≠ none) : t.node root ≠ none := by
  obtain ⟨names, rfl⟩ := part
  induction names with
  | nil => exact present
  | cons name names ih =>
    refine ih fun absent => present ?_
    have closed : t.isDirectory (names ++ root) = false := by
      rw [FileTree.Tree.isDirectory, absent]
      rfl
    exact node_below closed name

theorem not_complete_of_empty {t : FileTree.Tree String} {item : ArchiveFile} (member : item ∈ b.files)
    (empty : b.isEmpty t = true) : ¬ b.Complete t := by
  intro complete
  obtain ⟨place, _, ⟨root, walked, names, rfl⟩, found⟩ := complete item member
  obtain ⟨root', walked', bare⟩ := Option.any_eq_true _ _ |>.mp empty
  obtain rfl := Option.some.inj (walked.symm.trans walked')
  obtain ⟨there, bare⟩ := Bool.and_eq_true_iff.mp bare
  rcases List.eq_nil_or_concat names with rfl | ⟨before, name, rfl⟩
  · rw [FileTree.Tree.isDirectory, decide_eq_true_iff] at there
    cases there.symm.trans found
  · have listed : (name :: root) ∈ t.nodes.keys := by
      have part : name :: root <:+ before.concat name ++ root := ⟨before, by simp⟩
      have present := present_of_suffix t part (by rw [found]; exact Option.some_ne_none _)
      exact LinkedMap.mem_keys.mpr (Option.ne_none_iff_exists'.mp present)
    simpa using List.all_eq_true.mp bare _ listed

end Work

section Runs

def Clean (b : Bundle) (t : FileTree.Tree String) (deletes : Nat) : Prop :=
  (b.isPresent t = true → b.Complete t) ∨ deletes ≠ 0 ∧ b.isEmpty t = true

def Consistent (b : Bundle) (s : Device) : Prop :=
  match s.phase with
  | .idle => Clean b s.cursor.tree s.deletes
  | .returned => b.Complete s.cursor.tree
  | .running todo =>
    (Clean b s.cursor.tree s.deletes ∧ ∃ n, todo = List.replicate n .lookup ++ .check :: b.work) ∨
      (b.Complete s.cursor.tree ∧ todo = []) ∨
      ∃ c done, b.isPresent c.tree = false ∧ b.work = done ++ todo ∧ actAll b c done = some s.cursor

variable {b : Bundle}

theorem clean_of_absent {t : FileTree.Tree String} (absent : b.isPresent t = false) (deletes : Nat) : Clean b t deletes :=
  .inl fun present => absurd (present.symm.trans absent) (by decide)

theorem begin_consistent {cursor : Cursor String} {deletes : Nat} (clean : Clean b cursor.tree deletes) :
    Consistent b ⟨cursor, .running (b.lookups ++ .check :: b.work), deletes⟩ := by
  refine .inl ⟨clean, ?_⟩
  cases kind : b.kind with
  | network => exact ⟨2, by simp [Bundle.lookups, kind, List.replicate]⟩
  | asset => exact ⟨1, by simp [Bundle.lookups, kind]⟩

theorem resolve_consistent {s : Device} (consistent : Consistent b s) : Consistent b (step false b s .resolve) := by
  obtain ⟨cursor, phase, deletes⟩ := s
  cases phase with
  | idle => exact begin_consistent consistent
  | returned => exact begin_consistent (.inl fun _ => consistent)
  | running todo => exact consistent

theorem worked_consistent {s : Device} {next : Cursor String} {action : Action} {rest : List Action}
    (phase : s.phase = .running (action :: rest)) (consistent : Consistent b s)
    (checked : action = .check → ¬ Waits b s) (done : act b s.cursor action = some next) :
    Consistent b ⟨next, .running (b.remaining false s.cursor.tree action rest), s.deletes⟩ := by
  rw [Consistent, phase] at consistent
  obtain ⟨clean, n, todo⟩ | ⟨_, none⟩ | ⟨c, before, absent, split, reached⟩ := consistent
  · cases n with
    | zero =>
      obtain ⟨rfl, rfl⟩ := List.cons.inj todo
      cases done
      have valid := clean.resolve_right (checked rfl)
      by_cases present : b.isPresent s.cursor.tree = true
      · exact .inr (.inl ⟨valid present, by simp [Bundle.remaining, present]⟩)
      · exact .inr (.inr ⟨s.cursor, [], by simpa using present, by simp [Bundle.remaining, present], rfl⟩)
    | succ n =>
      obtain ⟨rfl, rfl⟩ := List.cons.inj todo
      cases done
      exact .inl ⟨clean, n, rfl⟩
  · cases none
  · have other : b.remaining false s.cursor.tree action rest = rest := by
      cases action with
      | check => exact absurd (by simp [split]) (work_asks_nothing b)
      | _ => rfl
    refine .inr (.inr ⟨c, before ++ [action], absent, by simp [other, split], ?_⟩)
    simp only [actAll, List.foldlM_append] at reached ⊢
    simp [reached, done]

theorem next_consistent (inward : b.Inward) {s : Device} {works : Bool} (consistent : Consistent b s)
    (meets : Meets b s (.next works)) : Consistent b (step false b s (.next works)) := by
  obtain ⟨cursor, phase, deletes⟩ := s
  cases phase with
  | idle => exact consistent
  | returned => exact consistent
  | running todo =>
    cases todo with
    | nil =>
      obtain ⟨_, n, todo⟩ | ⟨complete, _⟩ | ⟨c, before, absent, split, reached⟩ := consistent
      · cases n <;> cases todo
      · exact complete
      · rw [List.append_nil] at split
        rw [← split] at reached
        exact work_complete inward absent reached
    | cons action rest =>
      simp only [step, Meets] at meets ⊢
      cases outcome : if works then act b cursor action else none with
      | none =>
        have plain : (∃ n, action :: rest = List.replicate n .lookup ++ .check :: b.work) → action.isGuarded = false := by
          rintro ⟨n, todo⟩
          cases n with
          | zero =>
            obtain ⟨rfl, -⟩ := List.cons.inj todo
            rfl
          | succ n =>
            obtain ⟨rfl, -⟩ := List.cons.inj todo
            rfl
        obtain ⟨clean, early⟩ | ⟨_, none⟩ | ⟨c, before, _, split, _⟩ := consistent
        · rw [plain early]
          exact clean
        · cases none
        · have asks : .check ∉ action :: rest := fun member =>
            work_asks_nothing b (split ▸ List.mem_append_right before member)
          rcases meets.2 outcome asks with gone | ⟨guarded, empty⟩
          · exact clean_of_absent gone _
          · rw [guarded]
            exact .inr ⟨Nat.succ_ne_zero _, empty⟩
      | some next =>
        have worked : act b cursor action = some next := by
          cases works <;> simp_all
        exact worked_consistent (s := ⟨cursor, .running (action :: rest), deletes⟩) rfl consistent meets.1 worked

theorem atWork_running {s : Device} {done todo : List Action} (phase : s.phase = .running todo)
    (split : b.work = done ++ todo) : todo = [] ∨ s.atWork = true := by
  by_cases ended : todo = []
  · exact .inl ended
  · have asks : .check ∉ todo := fun member => work_asks_nothing b (split ▸ List.mem_append_right done member)
    exact .inr (by simp [Device.atWork, phase, ended, asks])

theorem delete_consistent (inward : b.Inward) {item : ArchiveFile} (member : item ∈ b.files) {s : Device} {works : Bool}
    (consistent : Consistent b s) (meets : Meets b s (.delete works)) :
    Consistent b (step false b s (.delete works)) := by
  obtain ⟨cursor, phase, deletes⟩ := s
  rw [step]
  split
  case isTrue => exact consistent
  case isFalse =>
    rw [Meets] at meets
    split at meets
    case isTrue empty =>
      obtain ⟨off, gone⟩ := meets
      have incomplete := not_complete_of_empty member empty
      cases phase with
      | idle => exact clean_of_absent gone _
      | returned => exact absurd consistent incomplete
      | running todo =>
        obtain ⟨_, early⟩ | ⟨complete, _⟩ | ⟨c, done, absent, split, reached⟩ := consistent
        · exact .inl ⟨clean_of_absent gone _, early⟩
        · exact absurd complete incomplete
        · rcases atWork_running (s := ⟨cursor, .running todo, deletes⟩) rfl split with rfl | busy
          · rw [List.append_nil] at split
            exact absurd (work_complete inward absent (split ▸ reached)) incomplete
          · exact absurd (busy.symm.trans off) (by decide)
    case isFalse full =>
      have same : deleted b cursor.tree works = cursor.tree := by
        cases works with
        | false => rfl
        | true => simp [deleted, delete, meets rfl]
      have clean (before : Clean b cursor.tree deletes) : Clean b cursor.tree (deletes - 1) :=
        .inl (before.resolve_right fun waits => full waits.2)
      simp only [same]
      cases phase with
      | idle => exact clean consistent
      | returned => exact consistent
      | running todo =>
        rcases consistent with ⟨before, early⟩ | later
        · exact .inl ⟨clean before, early⟩
        · exact .inr later

theorem halt_consistent (inward : b.Inward) {s : Device} (consistent : Consistent b s) (meets : Meets b s .halt) :
    Consistent b (step false b s .halt) := by
  obtain ⟨cursor, phase, deletes⟩ := s
  obtain ⟨calm, off⟩ := meets
  have clean (before : Clean b cursor.tree deletes) : Clean b cursor.tree 0 := .inl (before.resolve_right calm)
  show Clean b cursor.tree 0
  cases phase with
  | idle => exact clean consistent
  | returned => exact .inl fun _ => consistent
  | running todo =>
    obtain ⟨before, _⟩ | ⟨complete, _⟩ | ⟨c, done, absent, split, reached⟩ := consistent
    · exact clean before
    · exact .inl fun _ => complete
    · rcases atWork_running (s := ⟨cursor, .running todo, deletes⟩) rfl split with rfl | busy
      · rw [List.append_nil] at split
        exact .inl fun _ => work_complete inward absent (split ▸ reached)
      · exact clean_of_absent (off busy) _

theorem step_consistent (inward : b.Inward) {item : ArchiveFile} (member : item ∈ b.files) (s : Device) (event : Event)
    (consistent : Consistent b s) (meets : Meets b s event) : Consistent b (step false b s event) := by
  cases event with
  | resolve => exact resolve_consistent consistent
  | next works => exact next_consistent inward consistent meets
  | delete works => exact delete_consistent inward member consistent meets
  | halt => exact halt_consistent inward consistent meets

/-- In a run whose faults and stops come while the version directory is missing, or
    leave it empty for a delete that comes in time, a call of `resolve` that returns finds every file. -/
theorem returned_complete (b : Bundle) (t : FileTree.Tree String) (events : List Event) (absent : b.isPresent t = false)
    (meets : b.files = [] ∨ b.Inward ∧ Run.Along (step false b) (Meets b) (.start t) events) :
    ∀ s ∈ Run.states (step false b) (.start t) events, s.phase = .returned → b.Complete s.cursor.tree := by
  intro s member returned item inBundle
  rcases meets with none | ⟨inward, along⟩
  · rw [none] at inBundle
    cases inBundle
  · have initial : Consistent b (.start t) := clean_of_absent absent 0
    have consistent := Run.invariant (step false b) (Meets b) (Consistent b) (step_consistent inward inBundle) events _
      initial along s member
    rw [Consistent, returned] at consistent
    exact consistent item inBundle

def retryEvents : List Event :=
  [.resolve, .next true, .next true, .next false, .resolve, .next true, .delete true] ++ List.replicate 13 (.next true)

theorem returned_complete_retry :
    (∃ s ∈ Run.states (step false (sample .asset)) (.start fresh) retryEvents, s.phase = .returned) ∧
      ∀ s ∈ Run.states (step false (sample .asset)) (.start fresh) retryEvents,
        s.phase = .returned → (sample .asset).Complete s.cursor.tree :=
  ⟨by decide +kernel,
    returned_complete _ fresh _ (by decide +kernel) (.inr ⟨by decide +kernel, by decide +kernel⟩)⟩

/-- The download fails after the version directory has been made, and the next
    call returns on an empty directory. -/
theorem failed_download_returns :
    ∃ s ∈ Run.states (step false (sample .network)) (.start fresh)
        (.resolve :: List.replicate 7 (.next true) ++ [.next false, .resolve] ++ List.replicate 4 (.next true)),
      s.phase = .returned ∧ ¬ (sample .network).Complete s.cursor.tree := by
  decide +kernel

end Runs

end Sano.Framework
