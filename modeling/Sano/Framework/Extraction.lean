import Sano.Framework.Paths

namespace Sano.Framework

open FileTree

section Model

structure ArchiveFile where
  name : String
  isFile : Bool
  content : List UInt8

/-- The I/O steps of an extraction. A path is followed one segment at a time, and
    the bytes of a file are written one after the other. -/
inductive Command where
  | readAsBytes
  | decodeBytes
  | start (path : Path String)
  | makeDirectory (segment : Segment String)
  | openFile (segment : Segment String)
  | truncate
  | append (byte : UInt8)
deriving DecidableEq

def createDirectory (filename : String) : List Command :=
  .start (toPath filename) :: (toPath filename).segments.map .makeDirectory

def lastSegment (filename : String) : Segment String :=
  if endsWithSeparator filename then .here else (toPath filename).segments.getLast?.getD .here

def createFile (filename : String) : List Command :=
  .start (toPath filename) ::
    ((toPath filename).segments.dropLast.map .makeDirectory ++ [.openFile (lastSegment filename)])

def writeAsBytes (data : List UInt8) : List Command := .truncate :: data.map .append

def ArchiveFile.commands (output : String) (item : ArchiveFile) : List Command :=
  let filename := join output item.name
  if item.isFile then createFile filename ++ writeAsBytes item.content else createDirectory filename

def zipDecoder (output : String) (archive : List ArchiveFile) : List Command :=
  .readAsBytes :: .decodeBytes :: archive.flatMap (ArchiveFile.commands output)

def perform (c : Cursor String) : Command → Option (Cursor String)
  | .readAsBytes => some c
  | .decodeBytes => some c
  | .start path => if path = ⟨false, []⟩ then none else some (c.start path)
  | .makeDirectory segment => c.makeDirectory segment
  | .openFile segment => c.openFile segment
  | .truncate => c.write fun _ => []
  | .append byte => c.write (· ++ [byte])

def ownPlace (t : FileTree.Tree String) (path : Path String) : Option (Location String) :=
  match path.segments.getLast?, t.walk ⟨path.absolute, path.segments.dropLast⟩ with
  | some (.name name), some place => some (name :: place)
  | _, _ => none

def removal (t : FileTree.Tree String) (path : Path String) : Option (Location String) :=
  (ownPlace t path).filter fun place =>
    (t.remove place).isSome &&
      match t.node place with
      | some .directory => true
      | some (.link _) => (t.walk path).any t.isDirectory
      | _ => false

def delete (t : FileTree.Tree String) (path : Path String) : FileTree.Tree String := ((removal t path).bind t.remove).getD t

/-- All the ways in which a sequence of steps can end. At each step the process
    may stop; the step may throw, and the handler deletes the output directory. -/
def ends (output : String) (c : Cursor String) : List Command → List (FileTree.Tree String)
  | [] => [c.tree]
  | command :: rest =>
    c.tree :: delete c.tree (toPath output) ::
      match perform c command with
      | some next => ends output next rest
      | none => []

end Model

section Places

def Within (t : FileTree.Tree String) (output : String) (place : Location String) : Prop :=
  ownPlace t (toPath output) = some place ∨ ∃ root ∈ t.walk (toPath output), root <:+ place

instance (t : FileTree.Tree String) (output : String) (place : Location String) : Decidable (Within t output place) :=
  inferInstanceAs (Decidable (_ ∨ _))

def touches (c : Cursor String) : Command → Option (Location String)
  | .makeDirectory (.name name) => if c.tree.node (name :: c.place) = none then some (name :: c.place) else none
  | .openFile segment => (c.tree.next c.place segment).filter fun place => c.tree.node place = none
  | .truncate =>
    match c.tree.node c.place with
    | some (.file (_ :: _)) => some c.place
    | _ => none
  | .append _ => some c.place
  | _ => none

def Contained (inside : Location String → Prop) (c : Cursor String) : List Command → Prop
  | [] => True
  | command :: rest =>
    ∀ next, perform c command = some next →
      (∀ place, touches c command = some place → inside place) ∧ Contained inside next rest

theorem makeDirectory_touches {c next : Cursor String} {segment : Segment String}
    (made : c.makeDirectory segment = some next) (place : Location String) :
    next.tree.node place ≠ c.tree.node place ↔ touches c (.makeDirectory segment) = some place := by
  cases segment with
  | here => simp [(change_spec made).1, touches]
  | up => simp [(change_spec made).1, touches]
  | name name =>
    simp only [Cursor.makeDirectory, touches] at made ⊢
    split at made
    next absent =>
      obtain ⟨tree, put, rfl⟩ := Option.map_eq_some_iff.mp made
      simp only [absent, if_true, put_node put, Option.some.injEq]
      split
      next same =>
        subst same
        simp [absent]
      next apart => simp [apart]
    next present => simp [(change_spec made).1, present]

theorem openFile_touches {c next : Cursor String} {segment : Segment String}
    (opened : c.openFile segment = some next) (place : Location String) :
    next.tree.node place ≠ c.tree.node place ↔ touches c (.openFile segment) = some place := by
  obtain ⟨found, ⟨absent, put⟩ | ⟨⟨bytes, present⟩, same⟩⟩ := openFile_cases opened
  · simp only [touches, found, put_node put]
    split
    next same =>
      subst same
      simp [absent]
    next apart => simp [apart]
  · simp only [same, touches, found, ne_eq, not_true_eq_false, false_iff, Option.filter_eq_some_iff, Option.some.injEq]
    rintro ⟨rfl, absent⟩
    simp [present] at absent

theorem start_spec {c next : Cursor String} {path : Path String} (started : perform c (.start path) = some next) :
    path ≠ ⟨false, []⟩ ∧ next = c.start path := by
  simp only [perform] at started
  split at started
  next => cases started
  next named =>
    cases started
    exact ⟨named, rfl⟩

theorem perform_touches {c next : Cursor String} {command : Command} (done : perform c command = some next)
    (place : Location String) : next.tree.node place ≠ c.tree.node place ↔ touches c command = some place := by
  cases command with
  | readAsBytes =>
    cases done
    simp [touches]
  | decodeBytes =>
    cases done
    simp [touches]
  | start path =>
    rw [(start_spec done).2]
    simp [touches, Cursor.start]
  | makeDirectory segment => exact makeDirectory_touches done place
  | openFile segment => exact openFile_touches done place
  | truncate =>
    obtain ⟨_, _, bytes, found, written⟩ := write_spec done
    simp only [touches, found, written]
    cases bytes <;> split <;> simp_all
  | append byte =>
    obtain ⟨_, _, bytes, found, written⟩ := write_spec done
    simp only [touches, written, Option.some.injEq]
    split
    next same =>
      subst same
      simp [found]
    next apart => simp [apart]

theorem perform_grows {c next : Cursor String} {command : Command} (done : perform c command = some next) :
    Grows c.tree next.tree := by
  cases command with
  | readAsBytes | decodeBytes =>
    cases done
    exact .refl _
  | start path =>
    rw [(start_spec done).2]
    exact .refl _
  | makeDirectory segment => exact (makeDirectory_spec done).1.toGrows
  | openFile segment => exact (openFile_spec done).1.toGrows
  | truncate | append byte => exact (write_spec done).1

theorem removal_spec {t : FileTree.Tree String} {path : Path String} {place : Location String}
    (found : removal t path = some place) :
    ownPlace t path = some place ∧ t.node place ≠ none ∧ ∃ smaller, t.remove place = some smaller := by
  obtain ⟨own, removable⟩ := Option.filter_eq_some_iff.mp found
  obtain ⟨bare, kind⟩ := Bool.and_eq_true_iff.mp removable
  refine ⟨own, fun absent => ?_, Option.isSome_iff_exists.mp bare⟩
  simp [absent] at kind

theorem delete_node (t : FileTree.Tree String) (path : Path String) (place : Location String) :
    (delete t path).node place = if removal t path = some place then none else t.node place := by
  cases found : removal t path with
  | none => simp [delete, found]
  | some gone =>
    obtain ⟨_, _, smaller, removed⟩ := removal_spec found
    simp [delete, found, removed, remove_node removed]

end Places

section Frame

def Agrees (inside : Location String → Prop) (t s : FileTree.Tree String) : Prop :=
  ∀ place, ¬ inside place → s.node place = t.node place

theorem perform_agrees_iff {inside : Location String → Prop} {t : FileTree.Tree String} {c next : Cursor String}
    {command : Command} (agrees : Agrees inside t c.tree) (done : perform c command = some next) :
    Agrees inside t next.tree ↔ ∀ place, touches c command = some place → inside place := by
  constructor
  · intro after place touched
    by_contra outside
    exact (perform_touches done place).mpr touched ((after place outside).trans (agrees place outside).symm)
  · intro contained place outside
    rw [← agrees place outside]
    by_contra changed
    exact outside (contained place ((perform_touches done place).mp changed))

theorem walk_of_ownPlace_none {t : FileTree.Tree String} {path : Path String} {name : String}
    (last : path.segments.getLast? = some (.name name))
    (lost : t.walk ⟨path.absolute, path.segments.dropLast⟩ = none) : t.walk path = none := by
  obtain ⟨before, split⟩ := List.getLast?_eq_some_iff.mp last
  simp only [FileTree.Tree.walk, split, List.dropLast_concat, List.foldlM_append] at lost ⊢
  rw [show t.origin path = t.origin ⟨path.absolute, before⟩ from rfl, lost]
  rfl

theorem removal_within {t s : FileTree.Tree String} {output : String} {place : Location String} (grows : Grows t s)
    (agrees : Agrees (Within t output) t s) (found : removal s (toPath output) = some place) :
    Within t output place := by
  have own := (removal_spec found).1
  simp only [ownPlace] at own
  split at own
  next name parent last walked =>
    cases own
    cases early : t.walk ⟨(toPath output).absolute, (toPath output).segments.dropLast⟩ with
    | some first =>
      have same := walk_grows grows early
      rw [walked] at same
      cases same
      exact .inl (by simp [ownPlace, last, early])
    | none =>
      -- nothing counts as inside, so nothing has changed, and the walk is as it was
      have nowhere : ∀ other, ¬ Within t output other := by
        simp [Within, ownPlace, last, early, walk_of_ownPlace_none last early]
      have same : ∀ other, s.node other = t.node other := fun other => agrees other (nowhere other)
      have back : Grows s t :=
        ⟨grows.current.symm, fun other there => by rwa [FileTree.Tree.isDirectory, ← same], fun other => (grows.links other).symm⟩
      rw [walk_grows back walked] at early
      cases early
  next => cases own

theorem delete_agrees {t s : FileTree.Tree String} {output : String} (grows : Grows t s)
    (agrees : Agrees (Within t output) t s) : Agrees (Within t output) t (delete s (toPath output)) := by
  intro place outside
  rw [delete_node, if_neg fun found => outside (removal_within grows agrees found)]
  exact agrees place outside

theorem ends_agree_iff {t : FileTree.Tree String} (output : String) (commands : List Command) {c : Cursor String}
    (grows : Grows t c.tree) (agrees : Agrees (Within t output) t c.tree) :
    (∀ s ∈ ends output c commands, Agrees (Within t output) t s) ↔ Contained (Within t output) c commands := by
  induction commands generalizing c with
  | nil => simpa [ends, Contained] using agrees
  | cons command rest ih =>
    simp only [ends, Contained, List.mem_cons, forall_eq_or_imp, agrees, delete_agrees grows agrees, true_and]
    cases done : perform c command with
    | none => simp
    | some next =>
      simp only [Option.some.injEq, forall_eq']
      rw [← perform_agrees_iff agrees done]
      have later := grows.trans (perform_grows done)
      constructor
      · intro all
        have here : Agrees (Within t output) t next.tree := all _ (by cases rest <;> simp [ends])
        exact ⟨here, (ih later here).mp all⟩
      · rintro ⟨here, contained⟩
        exact (ih later here).mpr contained

end Frame

section Entries

def performAll (c : Cursor String) (commands : List Command) : Option (Cursor String) := commands.foldlM perform c

def Leads (inside : Location String → Prop) (c : Cursor String) : List (Segment String) → Prop
  | [] => True
  | segment :: rest =>
    ∀ next, c.makeDirectory segment = some next →
      (c.tree.node next.place = none → inside next.place) ∧ Leads inside next rest

def opened (c : Cursor String) (filename : String) : Option (Cursor String × Cursor String) :=
  match (toPath filename).segments.dropLast.foldlM Cursor.makeDirectory (c.start (toPath filename)) with
  | some before => (before.openFile (lastSegment filename)).map fun after => (before, after)
  | none => none

def ArchiveFile.Stays (inside : Location String → Prop) (output : String) (c : Cursor String)
    (item : ArchiveFile) : Prop :=
  let filename := join output item.name
  let path := toPath filename
  if item.isFile then
    Leads inside (c.start path) path.segments.dropLast ∧
      ∀ before after, opened c filename = some (before, after) →
        inside after.place ∨ (before.tree.node after.place = some (.file []) ∧ item.content = [])
  else Leads inside (c.start path) path.segments

def Stay (inside : Location String → Prop) (output : String) (c : Cursor String) : List ArchiveFile → Prop
  | [] => True
  | item :: rest =>
    item.Stays inside output c ∧
      ∀ next, performAll c (item.commands output) = some next → Stay inside output next rest

theorem contained_append {inside : Location String → Prop} {c : Cursor String} (first second : List Command) :
    Contained inside c (first ++ second) ↔
      Contained inside c first ∧ ∀ next, performAll c first = some next → Contained inside next second := by
  induction first generalizing c with
  | nil => simp [Contained, performAll]
  | cons command rest ih =>
    cases done : perform c command with
    | none => simp [Contained, performAll, done]
    | some middle => simp [Contained, performAll, done, ih, and_assoc]

theorem makeDirectory_touches_iff {c next : Cursor String} {segment : Segment String}
    (made : c.makeDirectory segment = some next) (inside : Location String → Prop) :
    (∀ place, touches c (.makeDirectory segment) = some place → inside place) ↔
      (c.tree.node next.place = none → inside next.place) := by
  have old (changed : c.change segment = some next) : c.tree.node next.place ≠ none := by
    obtain ⟨same, _, there⟩ := change_spec changed
    rw [same] at there
    intro absent
    simp [FileTree.Tree.isDirectory, absent] at there
  cases segment with
  | here => simp [touches, old made]
  | up => simp [touches, old made]
  | name name =>
    simp only [Cursor.makeDirectory, touches] at made ⊢
    split at made
    next absent =>
      obtain ⟨tree, put, rfl⟩ := Option.map_eq_some_iff.mp made
      simp [absent]
    next present => simp [present, old made]

theorem contained_makeDirectories {inside : Location String → Prop} {c : Cursor String}
    (segments : List (Segment String)) :
    Contained inside c (segments.map .makeDirectory) ↔ Leads inside c segments := by
  induction segments generalizing c with
  | nil => simp [Contained, Leads]
  | cons segment rest ih =>
    simp only [List.map_cons, Contained, Leads, perform, ih]
    refine forall₂_congr fun next made => ?_
    rw [makeDirectory_touches_iff made]

theorem contained_appends {inside : Location String → Prop} {c : Cursor String} {bytes : List UInt8}
    (found : c.tree.node c.place = some (.file bytes)) (data : List UInt8) :
    Contained inside c (data.map .append) ↔ inside c.place ∨ data = [] := by
  induction data generalizing c bytes with
  | nil => simp [Contained]
  | cons byte rest ih =>
    obtain ⟨next, written⟩ := write_possible found (· ++ [byte])
    obtain ⟨_, stays, old, _, nodes⟩ := write_spec written
    have later : next.tree.node next.place = some (.file (old ++ [byte])) := by simp [stays, nodes]
    simp only [List.map_cons, Contained, perform, written, Option.some.injEq, forall_eq', touches, ih later, stays,
      reduceCtorEq, or_false]
    exact ⟨And.left, fun here => ⟨here, .inl here⟩⟩

theorem contained_writeAsBytes {inside : Location String → Prop} {c : Cursor String} {bytes : List UInt8}
    (found : c.tree.node c.place = some (.file bytes)) (data : List UInt8) :
    Contained inside c (writeAsBytes data) ↔ inside c.place ∨ (bytes = [] ∧ data = []) := by
  obtain ⟨next, written⟩ := write_possible found fun _ => []
  obtain ⟨_, stays, _, _, nodes⟩ := write_spec written
  have later : next.tree.node next.place = some (.file []) := by simp [stays, nodes]
  simp only [writeAsBytes, Contained, perform, written, Option.some.injEq, forall_eq', contained_appends later, stays,
    touches, found]
  cases bytes with
  | nil => simp
  | cons first others =>
    simp only [Option.some.injEq, forall_eq', reduceCtorEq, false_and, or_false]
    exact ⟨And.left, fun here => ⟨here, .inl here⟩⟩

theorem contained_file {inside : Location String → Prop} {c : Cursor String} (segment : Segment String)
    (data : List UInt8) :
    Contained inside c (.openFile segment :: writeAsBytes data) ↔
      ∀ after, c.openFile segment = some after →
        inside after.place ∨ (c.tree.node after.place = some (.file []) ∧ data = []) := by
  rw [Contained]
  refine forall₂_congr fun after opened => ?_
  obtain ⟨found, ⟨absent, put⟩ | ⟨⟨bytes, present⟩, same⟩⟩ := openFile_cases opened
  · have empty : after.tree.node after.place = some (.file []) := by simp [put_node put]
    simp only [contained_writeAsBytes empty, touches, found, absent, Option.filter_some, decide_true, if_true,
      Option.some.injEq, forall_eq', reduceCtorEq, false_and, or_false]
    exact ⟨And.left, fun here => ⟨here, .inl here⟩⟩
  · have kept : after.tree.node after.place = some (.file bytes) := by rw [same, present]
    simp [contained_writeAsBytes kept, touches, found, present]

theorem performAll_makeDirectories (c : Cursor String) (segments : List (Segment String)) :
    performAll c (segments.map .makeDirectory) = segments.foldlM Cursor.makeDirectory c := by
  simp only [performAll, List.foldlM_map]
  rfl

theorem contained_start {inside : Location String → Prop} {c : Cursor String} {path : Path String}
    (named : path ≠ ⟨false, []⟩) (rest : List Command) :
    Contained inside c (.start path :: rest) ↔ Contained inside (c.start path) rest := by
  simp [Contained, perform, touches, named]

theorem contained_unnamed {inside : Location String → Prop} {c : Cursor String} {output : String}
    {item : ArchiveFile} (unnamed : toPath (join output item.name) = ⟨false, []⟩) :
    Contained inside c (item.commands output) := by
  simp only [ArchiveFile.commands, createFile, createDirectory, unnamed]
  cases item.isFile <;> simp [Contained, perform]

theorem stays_unnamed {inside : Location String → Prop} {c : Cursor String} {output : String} {item : ArchiveFile}
    (unnamed : toPath (join output item.name) = ⟨false, []⟩) : item.Stays inside output c := by
  have last : lastSegment (join output item.name) = .here := by simp [lastSegment, unnamed]
  simp only [ArchiveFile.Stays, opened, unnamed, last]
  cases item.isFile <;> simp [Leads, openFile_here]

theorem contained_entry {inside : Location String → Prop} {c : Cursor String} (output : String)
    (item : ArchiveFile) : Contained inside c (item.commands output) ↔ item.Stays inside output c := by
  by_cases unnamed : toPath (join output item.name) = ⟨false, []⟩
  · exact iff_of_true (contained_unnamed unnamed) (stays_unnamed unnamed)
  simp only [ArchiveFile.commands, ArchiveFile.Stays, createFile, createDirectory]
  cases item.isFile with
  | false =>
    simp only [Bool.false_eq_true, if_false]
    rw [contained_start unnamed, contained_makeDirectories]
  | true =>
    simp only [if_true, List.cons_append, List.append_assoc, List.nil_append]
    rw [contained_start unnamed, contained_append, contained_makeDirectories]
    refine and_congr_right fun _ => ?_
    rw [performAll_makeDirectories]
    cases reached : (toPath (join output item.name)).segments.dropLast.foldlM Cursor.makeDirectory
        (c.start (toPath (join output item.name))) with
    | none => simp [opened, reached]
    | some before =>
      simp only [Option.some.injEq, forall_eq', contained_file, opened, reached, Option.map_eq_some_iff]
      constructor
      · rintro all before after ⟨_, opened, same⟩
        cases same
        exact all _ opened
      · intro all after opened
        exact all before after ⟨after, opened, rfl⟩

theorem contained_archive {inside : Location String → Prop} (output : String) (archive : List ArchiveFile)
    {c : Cursor String} :
    Contained inside c (archive.flatMap (ArchiveFile.commands output)) ↔ Stay inside output c archive := by
  induction archive generalizing c with
  | nil => simp [Contained, Stay]
  | cons item rest ih => simp only [List.flatMap_cons, contained_append, contained_entry, Stay, ih]

/-- However an extraction ends, everything outside the output directory is as it
    was, exactly when every entry stays inside. -/
theorem extraction_frame_iff (t : FileTree.Tree String) (output : String) (archive : List ArchiveFile) :
    (∀ s ∈ ends output ⟨t, []⟩ (zipDecoder output archive),
      ∀ place, ¬ Within t output place → s.node place = t.node place) ↔
    Stay (Within t output) output ⟨t, []⟩ archive := by
  have quiet : Contained (Within t output) ⟨t, []⟩ (zipDecoder output archive) ↔
      Contained (Within t output) ⟨t, []⟩ (archive.flatMap (ArchiveFile.commands output)) := by
    simp [zipDecoder, Contained, perform, touches]
  rw [← contained_archive, ← quiet]
  exact ends_agree_iff output _ (.refl t) fun _ _ => rfl

/-- The entry `../x` overwrites a file beside the output directory. -/
theorem parent_name_overwrites :
    ∃ t ∈ FileTree.Tree.build [(["app"], .directory), (["1.0", "app"], .directory), (["x", "app"], .file [1])],
      ∃ s ∈ ends "/app/1.0" ⟨t, []⟩ (zipDecoder "/app/1.0" [⟨"../x", true, [2]⟩]),
        ¬ Within t "/app/1.0" ["x", "app"] ∧ s.node ["x", "app"] ≠ t.node ["x", "app"] := by
  decide +kernel

end Entries

end Sano.Framework
