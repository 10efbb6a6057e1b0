import Sano.Framework.Extraction

namespace Sano.Framework

open FileTree

section Steps

theorem performAll_append (c : Cursor String) (first second : List Command) :
    performAll c (first ++ second) = (performAll c first).bind fun next => performAll next second := by
  simp [performAll, List.foldlM_append]

theorem appends_spec (data : List UInt8) {c next : Cursor String} {bytes : List UInt8}
    (found : c.tree.node c.place = some (.file bytes)) (done : performAll c (data.map .append) = some next) :
    Grows c.tree next.tree ∧ next.place = c.place ∧
      ∀ other, next.tree.node other = if c.place = other then some (.file (bytes ++ data)) else c.tree.node other := by
  induction data generalizing c bytes with
  | nil =>
    cases done
    refine ⟨.refl _, rfl, fun other => ?_⟩
    split
    next same => rw [← same, found, List.append_nil]
    next => rfl
  | cons byte rest ih =>
    rw [List.map_cons, performAll, List.foldlM_cons] at done
    obtain ⟨middle, written, later⟩ := Option.bind_eq_some_iff.mp done
    obtain ⟨grows, stays, old, before, nodes⟩ := write_spec written
    rw [found] at before
    cases before
    have now : middle.tree.node middle.place = some (.file (bytes ++ [byte])) := by simp [stays, nodes]
    obtain ⟨more, still, after⟩ := ih now later
    refine ⟨grows.trans more, still.trans stays, fun other => ?_⟩
    rw [after, nodes, stays]
    split <;> simp

theorem writeAsBytes_spec {c next : Cursor String} (data : List UInt8)
    (done : performAll c (writeAsBytes data) = some next) :
    Grows c.tree next.tree ∧ next.place = c.place ∧
      ∀ other, next.tree.node other = if c.place = other then some (.file data) else c.tree.node other := by
  rw [writeAsBytes, performAll, List.foldlM_cons] at done
  obtain ⟨middle, written, later⟩ := Option.bind_eq_some_iff.mp done
  obtain ⟨grows, stays, old, _, nodes⟩ := write_spec written
  have now : middle.tree.node middle.place = some (.file []) := by simp [stays, nodes]
  obtain ⟨more, still, after⟩ := appends_spec data now later
  refine ⟨grows.trans more, still.trans stays, fun other => ?_⟩
  rw [after, nodes, stays, List.nil_append]
  split <;> rfl

theorem createFile_steps {c next : Cursor String} {filename : String}
    (done : performAll c (createFile filename) = some next) :
    ∃ reached : Cursor String,
      (toPath filename).segments.dropLast.foldlM Cursor.makeDirectory (c.start (toPath filename)) = some reached ∧
        reached.openFile (lastSegment filename) = some next := by
  rw [createFile, performAll, List.foldlM_cons] at done
  obtain ⟨first, started, later⟩ := Option.bind_eq_some_iff.mp done
  obtain ⟨_, rfl⟩ := start_spec started
  change performAll _ _ = _ at later
  rw [performAll_append, performAll_makeDirectories] at later
  obtain ⟨reached, made, last⟩ := Option.bind_eq_some_iff.mp later
  exact ⟨reached, made, by simpa [performAll, perform] using last⟩

theorem createFile_spec {c next : Cursor String} {filename : String}
    (done : performAll c (createFile filename) = some next) :
    Adds c.tree next.tree ∧ next.tree.walk (toPath filename) = some next.place ∧
      ∃ bytes, next.tree.node next.place = some (.file bytes) := by
  obtain ⟨reached, made, opened⟩ := createFile_steps done
  obtain ⟨early, walked⟩ := makeDirectories_spec _ made
  obtain ⟨late, found, file⟩ := openFile_spec opened
  refine ⟨early.trans late, ?_, file⟩
  -- a path that leads to a file ends with a name
  have ending : ∃ before, (toPath filename).segments = before ++ [lastSegment filename] := by
    by_cases closed : lastSegment filename = .here
    · rw [closed, openFile_here] at opened
      cases opened
    · unfold lastSegment at closed ⊢
      split at closed
      next => exact absurd rfl closed
      next open_ =>
        rw [if_neg open_]
        cases ends : (toPath filename).segments.getLast? with
        | none => simp [ends] at closed
        | some segment => simpa using List.getLast?_eq_some_iff.mp ends
  obtain ⟨before, split⟩ := ending
  rw [split, List.dropLast_concat] at walked
  have further : before.foldlM next.tree.next (c.tree.origin (toPath filename)) = some reached.place :=
    foldlM_agree (fun _ _ _ => next_grows late.toGrows) before walked
  have origin : next.tree.origin (toPath filename) = c.tree.origin (toPath filename) :=
    (early.trans late).toGrows.origin _
  rw [FileTree.Tree.walk, origin, split, List.foldlM_append, further]
  simpa using found

theorem createDirectory_steps {c next : Cursor String} {filename : String}
    (done : performAll c (createDirectory filename) = some next) :
    toPath filename ≠ ⟨false, []⟩ ∧
      (toPath filename).segments.foldlM Cursor.makeDirectory (c.start (toPath filename)) = some next := by
  rw [createDirectory, performAll, List.foldlM_cons] at done
  obtain ⟨first, started, later⟩ := Option.bind_eq_some_iff.mp done
  obtain ⟨named, rfl⟩ := start_spec started
  change performAll _ _ = _ at later
  rw [performAll_makeDirectories] at later
  exact ⟨named, later⟩

theorem createDirectory_spec {c next : Cursor String} {filename : String}
    (done : performAll c (createDirectory filename) = some next) : Adds c.tree next.tree :=
  (makeDirectories_spec _ (createDirectory_steps done).2).1

theorem createDirectory_reaches {c next : Cursor String} {filename : String}
    (done : performAll c (createDirectory filename) = some next) :
    next.tree.walk (toPath filename) = some next.place ∧ next.tree.isDirectory next.place = true := by
  obtain ⟨named, made⟩ := createDirectory_steps done
  obtain ⟨adds, walked⟩ := makeDirectories_spec _ made
  constructor
  · rw [FileTree.Tree.walk, adds.toGrows.origin]
    exact walked
  · apply makeDirectories_end _ _ made
    cases path : toPath filename with
    | mk absolute segments =>
      cases segments with
      | cons segment rest => exact .inr (by simp)
      | nil =>
        cases absolute with
        | false => exact absurd path named
        | true => exact .inl (decide_eq_true c.tree.root)

def ArchiveFile.placeIn (t : FileTree.Tree String) (output : String) (item : ArchiveFile) : Option (Location String) :=
  t.walk (toPath (join output item.name))

end Steps

section Exact

def ArchiveFile.Passes (t : FileTree.Tree String) (output : String) (item : ArchiveFile)
    (place : Location String) : Prop :=
  ∃ segments, segments <+: (toPath (join output item.name)).segments ∧
    t.walk ⟨(toPath (join output item.name)).absolute, segments⟩ = some place

def lastFile (t : FileTree.Tree String) (output : String) (archive : List ArchiveFile) (place : Location String) :
    Option ArchiveFile :=
  (archive.filter fun item => item.isFile && item.placeIn t output = some place).getLast?

theorem makeDirectories_passes {c next : Cursor String} {output : String} {item : ArchiveFile}
    {segments : List (Segment String)} (part : segments <+: (toPath (join output item.name)).segments)
    (made : segments.foldlM Cursor.makeDirectory (c.start (toPath (join output item.name))) = some next)
    (other : Location String) :
    next.tree.node other = c.tree.node other ∨
      c.tree.node other = none ∧ next.tree.isDirectory other = true ∧ item.Passes next.tree output other := by
  have adds := (makeDirectories_spec _ made).1
  rcases makeDirectories_new _ made other with same | ⟨absent, there, before, shorter, reached⟩
  · exact .inl same
  · refine .inr ⟨absent, there, before, shorter.trans part, ?_⟩
    rw [FileTree.Tree.walk, adds.toGrows.origin]
    exact reached

theorem openFile_keeps {c next : Cursor String} {segment : Segment String} (opened : c.openFile segment = some next)
    {other : Location String} (apart : other ≠ next.place) : next.tree.node other = c.tree.node other := by
  obtain ⟨_, ⟨_, put⟩ | ⟨_, same⟩⟩ := openFile_cases opened
  · rw [put_node put, if_neg (Ne.symm apart)]
  · rw [same]

theorem Passes.grows {t s : FileTree.Tree String} (grows : Grows t s) {output : String} {item : ArchiveFile}
    {place : Location String} (passes : item.Passes t output place) : item.Passes s output place := by
  obtain ⟨segments, part, walked⟩ := passes
  exact ⟨segments, part, walk_grows grows walked⟩

theorem entry_spec {c next : Cursor String} {output : String} {item : ArchiveFile}
    (done : performAll c (item.commands output) = some next) :
    Grows c.tree next.tree ∧ item.placeIn next.tree output = some next.place ∧
      next.tree.node next.place = some (if item.isFile then .file item.content else .directory) ∧
      ∀ other, ¬ (item.isFile = true ∧ item.placeIn next.tree output = some other) →
        next.tree.node other = c.tree.node other ∨
          c.tree.node other = none ∧ next.tree.isDirectory other = true ∧ item.Passes next.tree output other := by
  simp only [ArchiveFile.commands] at done
  cases kind : item.isFile with
  | false =>
    simp only [kind, Bool.false_eq_true, if_false] at done
    obtain ⟨walked, there⟩ := createDirectory_reaches done
    exact ⟨(createDirectory_spec done).toGrows, walked, of_decide_eq_true there, fun other _ =>
      makeDirectories_passes (List.prefix_refl _) (createDirectory_steps done).2 other⟩
  | true =>
    simp only [kind, if_true] at done
    rw [performAll_append] at done
    obtain ⟨middle, created, later⟩ := Option.bind_eq_some_iff.mp done
    obtain ⟨adds, walked, _⟩ := createFile_spec created
    obtain ⟨reached, made, opened⟩ := createFile_steps created
    obtain ⟨grows, stays, nodes⟩ := writeAsBytes_spec _ later
    have here : item.placeIn next.tree output = some middle.place := walk_grows grows walked
    refine ⟨adds.toGrows.trans grows, by rw [here, stays], by simp [nodes, stays], fun other elsewhere => ?_⟩
    · have apart : other ≠ middle.place := by
        rintro rfl
        exact elsewhere ⟨rfl, here⟩
      have kept := openFile_keeps opened apart
      have last : next.tree.node other = middle.tree.node other := by rw [nodes, if_neg (Ne.symm apart)]
      rcases makeDirectories_passes (List.dropLast_prefix _) made other with same | ⟨absent, there, passes⟩
      · exact .inl (by rw [last, kept, same])
      · refine .inr ⟨absent, ?_, Passes.grows ((openFile_spec opened).1.toGrows.trans grows) passes⟩
        rw [FileTree.Tree.isDirectory, last, kept]
        exact there

structure Extracted (t s : FileTree.Tree String) (output : String) (archive : List ArchiveFile) : Prop where
  resolved : ∀ item ∈ archive, ∃ place, item.placeIn s output = some place
  files : ∀ place last, lastFile s output archive place = some last → s.node place = some (.file last.content)
  directories : ∀ item ∈ archive, item.isFile = false → ∃ place ∈ item.placeIn s output, s.isDirectory place = true
  kept : ∀ place, t.node place ≠ none → lastFile s output archive place = none → s.node place = t.node place
  added : ∀ place, t.node place = none → s.node place ≠ none → lastFile s output archive place = none →
    s.isDirectory place = true ∧ ∃ item ∈ archive, item.Passes s output place

theorem lastFile_snoc {s s' : FileTree.Tree String} (grows : Grows s s') {output : String} {items : List ArchiveFile}
    (resolved : ∀ item ∈ items, ∃ place, item.placeIn s output = some place) (item : ArchiveFile)
    (place : Location String) :
    lastFile s' output (items ++ [item]) place =
      if item.isFile = true ∧ item.placeIn s' output = some place then some item
      else lastFile s output items place := by
  have same : ∀ old ∈ items, (old.isFile && old.placeIn s' output = some place) =
      (old.isFile && old.placeIn s output = some place) := by
    intro old member
    obtain ⟨found, there⟩ := resolved old member
    have still : old.placeIn s' output = some found := walk_grows grows there
    rw [there, still]
  simp only [lastFile, List.filter_append, List.filter_congr same]
  split
  next here => simp [here]
  next elsewhere => simp [elsewhere]

theorem Extracted.nil (t : FileTree.Tree String) (output : String) : Extracted t t output [] where
  resolved := fun _ member => by cases member
  files := fun _ _ found => by cases found
  directories := fun _ member => by cases member
  kept := fun _ _ _ => rfl
  added := fun _ absent present => absurd absent present

theorem entry_extracted {t : FileTree.Tree String} {c next : Cursor String} {output : String}
    {items : List ArchiveFile} {item : ArchiveFile} (before : Extracted t c.tree output items)
    (done : performAll c (item.commands output) = some next) :
    Extracted t next.tree output (items ++ [item]) := by
  obtain ⟨grows, here, node, others⟩ := entry_spec done
  have last := lastFile_snoc grows before.resolved item
  -- a place that is not the new entry's and had something keeps it
  have keeps (place : Location String) (elsewhere : ¬ (item.isFile = true ∧ item.placeIn next.tree output = some place))
      (present : c.tree.node place ≠ none) : next.tree.node place = c.tree.node place := by
    rcases others place elsewhere with same | ⟨absent, _⟩
    · exact same
    · exact absurd absent present
  constructor
  · intro old member
    rcases List.mem_append.mp member with early | new
    · obtain ⟨place, found⟩ := before.resolved old early
      exact ⟨place, walk_grows grows found⟩
    · rw [List.mem_singleton.mp new]
      exact ⟨next.place, here⟩
  · intro place file found
    rw [last] at found
    split at found
    next own =>
      cases found
      rw [here] at own
      obtain ⟨isFile, rfl⟩ : item.isFile = true ∧ next.place = place := by simpa using own
      simpa [isFile] using node
    next elsewhere =>
      have old := before.files place file found
      rw [keeps place elsewhere (by simp [old]), old]
  · intro old member directory
    rcases List.mem_append.mp member with early | new
    · obtain ⟨place, found, there⟩ := before.directories old early directory
      exact ⟨place, walk_grows grows found, grows.directories place there⟩
    · rw [List.mem_singleton.mp new] at directory ⊢
      exact ⟨next.place, here, by simp [FileTree.Tree.isDirectory, node, directory]⟩
  · intro place present unwritten
    rw [last] at unwritten
    split at unwritten
    next => cases unwritten
    next elsewhere =>
      have old := before.kept place present unwritten
      rw [keeps place elsewhere (by rwa [old]), old]
  · intro place absent present unwritten
    rw [last] at unwritten
    split at unwritten
    next => cases unwritten
    next elsewhere =>
      rcases others place elsewhere with same | ⟨_, there, passes⟩
      · rw [same] at present
        obtain ⟨there, old, member, passes⟩ := before.added place absent present unwritten
        exact ⟨grows.directories place there, old, List.mem_append_left _ member, Passes.grows grows passes⟩
      · exact ⟨there, item, List.mem_append_right _ (List.mem_singleton_self item), passes⟩

theorem archive_extracted {t : FileTree.Tree String} {output : String} (rest : List ArchiveFile)
    {items : List ArchiveFile} {c next : Cursor String} (before : Extracted t c.tree output items)
    (done : performAll c (rest.flatMap (ArchiveFile.commands output)) = some next) :
    Extracted t next.tree output (items ++ rest) := by
  induction rest generalizing items c with
  | nil =>
    cases done
    simpa using before
  | cons item rest ih =>
    rw [List.flatMap_cons, performAll_append] at done
    obtain ⟨middle, here, later⟩ := Option.bind_eq_some_iff.mp done
    have more := ih (entry_extracted before here) later
    simpa using more

def Written (t : FileTree.Tree String) (output : String) (items : List ArchiveFile) : Prop :=
  ∀ item ∈ items, item.isFile = true → ∃ place, item.placeIn t output = some place ∧
    ∃ other ∈ items, other.isFile = true ∧ other.placeIn t output = some place ∧
      t.node place = some (.file other.content)

theorem lastFile_exists {t : FileTree.Tree String} {output : String} {archive : List ArchiveFile}
    {place : Location String} {item : ArchiveFile} (member : item ∈ archive) (file : item.isFile = true)
    (here : item.placeIn t output = some place) :
    ∃ last ∈ archive, last.isFile = true ∧ last.placeIn t output = some place ∧
      lastFile t output archive place = some last := by
  cases found : lastFile t output archive place with
  | none =>
    have nowhere := List.filter_eq_nil_iff.mp (List.getLast?_eq_none_iff.mp found) item member
    simp [file, here] at nowhere
  | some last =>
    obtain ⟨among, kind⟩ := List.mem_filter.mp (List.mem_of_getLast? found)
    have both : last.isFile = true ∧ last.placeIn t output = some place := by simpa using kind
    exact ⟨last, among, both.1, both.2, rfl⟩

/-- A finished extraction has written the file of every file entry. -/
theorem zipDecoder_written {output : String} {archive : List ArchiveFile} {c next : Cursor String}
    (done : performAll c (zipDecoder output archive) = some next) : Written next.tree output archive := by
  have extracted := archive_extracted archive (.nil c.tree output) done
  intro item member file
  obtain ⟨place, here⟩ := extracted.resolved item member
  obtain ⟨last, among, isFile, there, found⟩ := lastFile_exists member file here
  exact ⟨place, here, last, among, isFile, there, extracted.files place last found⟩

/-- A finished extraction has written the archive and nothing else: what was there
    stays except for the files of entries, and what is new besides them is a
    directory on the way to an entry. -/
theorem extraction_writes_archive (t : FileTree.Tree String) (output : String) (archive : List ArchiveFile)
    (next : Cursor String) (completed : performAll ⟨t, []⟩ (zipDecoder output archive) = some next) :
    Extracted t next.tree output archive :=
  archive_extracted archive (.nil t output) completed

/-- The file of the directory `a` is written twice, and once before the directory's own entry. -/
theorem extraction_writes_archive_twice :
    ∃ next, performAll ⟨.empty, []⟩ (zipDecoder "/o" [⟨"a/m", true, [7]⟩, ⟨"a", false, []⟩, ⟨"a/../a/m", true, [8]⟩]) =
        some next ∧
      Extracted .empty next.tree "/o" [⟨"a/m", true, [7]⟩, ⟨"a", false, []⟩, ⟨"a/../a/m", true, [8]⟩] := by
  obtain ⟨next, completed⟩ : ∃ next, performAll ⟨.empty, []⟩
      (zipDecoder "/o" [⟨"a/m", true, [7]⟩, ⟨"a", false, []⟩, ⟨"a/../a/m", true, [8]⟩]) = some next :=
    Option.isSome_iff_exists.mp (by decide +kernel)
  exact ⟨next, completed, extraction_writes_archive _ _ _ next completed⟩

end Exact

end Sano.Framework
