import Sano.Base.Reach
import Sano.Framework.Bundle

namespace Sano.Framework

open FileTree

section Model

/-- What a file is opened for by its name. Links are followed, and what ends with a
    separator can only be a directory. -/
def fileAt (t : FileTree.Tree String) (text : String) : Option (List UInt8) :=
  if endsWithSeparator text then none
  else
    match (t.walk (toPath text)).bind t.node with
    | some (.file bytes) => some bytes
    | _ => none

inductive Failure where
  | missing
  | malformed
deriving DecidableEq

def Bundle.isExist (b : Bundle) (t : FileTree.Tree String) (filePath : String) : Bool :=
  (fileAt t (join b.assetsPath filePath)).isSome

def withoutFirst (name : String) : String := String.ofList name.toList.tail

def Bundle.getAssetsPath (b : Bundle) (name : String) : String :=
  join b.assetsPath (if isAbsolute name then withoutFirst name else name)

def Bundle.readAsBytes (b : Bundle) (t : FileTree.Tree String) (filePath : String) : Except Failure (List UInt8) :=
  match fileAt t (b.getAssetsPath filePath) with
  | some bytes => .ok bytes
  | none => .error .missing

variable {σ μ : Type} (decode : List UInt8 → Option σ) (jsonDecode : σ → Option (Option μ))

def toText (bytes : List UInt8) : Except Failure σ :=
  match decode bytes with
  | some text => .ok text
  | none => .error .malformed

def Bundle.read (b : Bundle) (t : FileTree.Tree String) (filePath : String) : Except Failure σ := do
  let bytes ← b.readAsBytes t filePath
  toText decode bytes

def Bundle.readJson (b : Bundle) (t : FileTree.Tree String) (filePath : String) : Except Failure (Option μ) :=
  if b.isExist t filePath then do
    let source ← b.read decode t filePath
    match jsonDecode source with
    | some value => .ok value
    | none => .error .malformed
  else .ok none

end Model

section Paths

/-- A name with a slash before it. -/
theorem eq_slash_append {name : String} (absolute : isAbsolute name = true) : name = "/" ++ withoutFirst name := by
  have first : name.toList.head? = some '/' := of_decide_eq_true absolute
  apply String.toList_inj.mp
  cases chars : name.toList with
  | nil => simp [chars] at first
  | cons head tail =>
    have slash : head = '/' := by simpa [chars] using first
    simp [withoutFirst, chars, slash]

theorem toPath_slash (rest : String) : toPath ("/" ++ rest) = ⟨true, (toPath rest).segments⟩ := by
  simp [toPath, components_separator, isAbsolute]

theorem lastSegment_eq {text rest : String} (part : (toPath rest).segments <:+ (toPath text).segments)
    (named : (toPath rest).segments ≠ []) (ending : endsWithSeparator text = endsWithSeparator rest) :
    lastSegment text = lastSegment rest := by
  obtain ⟨before, split⟩ := part
  simp [lastSegment, ending, ← split, List.getLast?_append_of_ne_nil _ named]

end Paths

section Agreement

variable {σ μ : Type} (decode : List UInt8 → Option σ) (jsonDecode : σ → Option (Option μ))

def Bundle.Faithful (b : Bundle) (t : FileTree.Tree String) (name : String) : Prop :=
  (b.isExist t name = true ↔ (fileAt t (b.getAssetsPath name)).isSome = true) ∧
    (b.readJson decode jsonDecode t name = .ok none → b.read decode t name = .error .missing) ∧
    b.readJson decode jsonDecode t name ≠ .error .missing

def Bundle.HoldsNull (b : Bundle) (t : FileTree.Tree String) (name : String) : Prop :=
  ∃ bytes ∈ fileAt t (b.getAssetsPath name), (decode bytes).bind jsonDecode = some none

/-- After one slash there is nothing, or something that a file can be named. -/
def Slashed (name : String) : Prop :=
  isAbsolute name = true ∧ isAbsolute (withoutFirst name) = false ∧
    (withoutFirst name = "" ∨ ∃ file, lastSegment (withoutFirst name) = .name file)

theorem faithful_iff (b : Bundle) (t : FileTree.Tree String) (name : String) :
    b.Faithful decode jsonDecode t name ↔
      b.isExist t name = (fileAt t (b.getAssetsPath name)).isSome ∧ ¬ b.HoldsNull decode jsonDecode t name := by
  unfold Bundle.Faithful Bundle.HoldsNull Bundle.readJson Bundle.read Bundle.readAsBytes toText
  generalize b.isExist t name = checked
  generalize fileAt t (b.getAssetsPath name) = opened
  cases opened with
  | none => cases checked <;> simp [Bind.bind, Except.bind]
  | some bytes =>
    cases checked with
    | false => simp
    | true =>
      cases decoded : decode bytes with
      | none => simp [Bind.bind, Except.bind, decoded]
      | some text => cases value : jsonDecode text <;> simp [Bind.bind, Except.bind, decoded, value]

theorem fileAt_congr {t : FileTree.Tree String} {first second : String} (path : toPath first = toPath second)
    (ending : endsWithSeparator first = endsWithSeparator second) : fileAt t first = fileAt t second := by
  simp [fileAt, path, ending]

theorem next_unnamed {t : FileTree.Tree String} {segment : Segment String} (unnamed : ∀ name, segment ≠ .name name)
    {place result : Location String} (entered : t.next place segment = some result) :
    t.isDirectory result = true := by
  have there : t.isDirectory place = true := advance_directory entered
  simp only [FileTree.Tree.next, maxLinks, FileTree.Tree.advance, FileTree.Tree.enter, there, if_true] at entered
  cases segment with
  | here =>
    cases entered
    exact there
  | up =>
    cases entered
    cases place with
    | nil => exact there
    | cons name place => exact isDirectory_parent there
  | name name => exact absurd rfl (unnamed name)

theorem fileAt_unnamed {t : FileTree.Tree String} {text : String} (some_ : (toPath text).segments ≠ [])
    (unnamed : ∀ file, lastSegment text ≠ .name file) : fileAt t text = none := by
  unfold fileAt
  split
  next => rfl
  next open_ =>
    obtain ⟨before, last, split⟩ : ∃ before last, (toPath text).segments = before ++ [last] :=
      ⟨_, _, (List.dropLast_append_getLast some_).symm⟩
    have ending : lastSegment text = last := by simp [lastSegment, open_, split]
    cases walked : t.walk (toPath text) with
    | none => rfl
    | some place =>
      simp only [FileTree.Tree.walk, split, List.foldlM_append] at walked
      obtain ⟨middle, _, entered⟩ := Option.bind_eq_some_iff.mp walked
      have there := next_unnamed (fun name => ending ▸ unnamed name) (by simpa using entered)
      have found : t.node place = some .directory := of_decide_eq_true there
      simp [found]

theorem isExist_eq {name : String} (plain : ¬ Slashed name) (b : Bundle) (t : FileTree.Tree String) :
    b.isExist t name = (fileAt t (b.getAssetsPath name)).isSome := by
  unfold Bundle.isExist Bundle.getAssetsPath
  cases absolute : isAbsolute name with
  | false => simp
  | true =>
    have text := eq_slash_append absolute
    simp only [if_true]
    cases twice : isAbsolute (withoutFirst name) with
    | true =>
      -- two slashes, of which one is taken away
      have nonempty : withoutFirst name ≠ "" := by
        intro empty
        simp [empty, isAbsolute] at twice
      have path : toPath name = toPath (withoutFirst name) := by
        rw [text, toPath_slash]
        simp [toPath, ← text, twice]
      have ending : endsWithSeparator name = endsWithSeparator (withoutFirst name) := by
        nth_rewrite 1 [text]
        exact endsWithSeparator_append "/" nonempty
      rw [join, join, if_pos absolute, if_pos twice, fileAt_congr path ending]
    | false =>
      have rest : withoutFirst name ≠ "" ∧ ∀ file, lastSegment (withoutFirst name) ≠ .name file := by
        simpa [Slashed, absolute, twice] using plain
      have named : (toPath (withoutFirst name)).segments ≠ [] := by
        simpa [toPath] using components_ne_nil twice rest.1
      have check : fileAt t (join b.assetsPath name) = none := by
        have path : toPath (join b.assetsPath name) = ⟨true, (toPath (withoutFirst name)).segments⟩ := by
          rw [join, if_pos absolute, text, toPath_slash, ← text]
        have ending : endsWithSeparator (join b.assetsPath name) = endsWithSeparator (withoutFirst name) := by
          rw [join, if_pos absolute]
          nth_rewrite 1 [text]
          exact endsWithSeparator_append "/" rest.1
        apply fileAt_unnamed
        · simpa only [path] using named
        · rw [lastSegment_eq (by simp [path]) named ending]
          exact rest.2
      have read : fileAt t (join b.assetsPath (withoutFirst name)) = none := by
        have path := toPath_join (assetsPath_ne_empty b) twice rest.1
        apply fileAt_unnamed
        · simp [path, named]
        · rw [lastSegment_eq (by simp [path]) named (endsWithSeparator_join b.assetsPath rest.1)]
          exact rest.2
      rw [check, read]

def label (n : Nat) : String := String.ofList (List.replicate (n + 1) 'a')

theorem label_injective : Function.Injective label := by
  intro m n same
  have chars : List.replicate (m + 1) 'a' = List.replicate (n + 1) 'a' := by
    simpa [label] using congrArg String.toList same
  simpa using congrArg List.length chars

theorem toPath_label (n : Nat) : toPath ("/" ++ label n) = ⟨true, [.name (label n)]⟩ := by
  have single : components (label n) = [label n] := by
    have chars : (label n).toList = List.replicate (n + 1) 'a' := by simp [label]
    rw [components, chars, List.splitOn_eq_singleton (by simp [List.mem_replicate])]
    simp [label, List.replicate_succ]
  have first : (label n).toList.head? = some 'a' := by simp [label, List.replicate_succ]
  have proper : toSegment (label n) = .name (label n) := by
    unfold toSegment
    rw [if_neg, if_neg] <;> intro same <;> simp [same] at first
  rw [toPath_slash, toPath, single]
  simp [proper]

def located (directory : String) : Bundle := ⟨.asset, "", directory, "", [], none⟩

theorem located_assetsPath (n : Nat) : (located ("/" ++ label n)).assetsPath = "/" ++ label n := by
  have absolute : isAbsolute ("/" ++ label n) = true := by simp [isAbsolute]
  simp [Bundle.assetsPath, located, join, absolute]

theorem fileAt_eq_some {t : FileTree.Tree String} {text : String} {place : Location String} {bytes : List UInt8}
    (open_ : endsWithSeparator text = false) (walked : t.walk (toPath text) = some place)
    (found : t.node place = some (.file bytes)) : fileAt t text = some bytes := by
  simp [fileAt, open_, walked, found]

theorem endsWithSeparator_label (n : Nat) : endsWithSeparator ("/" ++ label n) = false := by
  have nonempty : label n ≠ "" := by simp [label, List.replicate_succ]
  rw [endsWithSeparator_append "/" nonempty]
  simp [endsWithSeparator, label, List.getLast?_replicate]

theorem slash_apart {name : String} (slash : name = "/") :
    ∃ (b : Bundle) (t : FileTree.Tree String), b.isExist t name = false ∧ fileAt t (b.getAssetsPath name) = some [] := by
  have root : (FileTree.Tree.empty : FileTree.Tree String).isDirectory [] = true := decide_eq_true FileTree.Tree.empty.root
  have absent : (FileTree.Tree.empty : FileTree.Tree String).node [label 0] = none := by
    simp [FileTree.Tree.node, FileTree.Tree.empty, LinkedMap.get?_insert]
  obtain ⟨t, put⟩ := put_possible root absent (.file [])
  refine ⟨located ("/" ++ label 0), t, by simp [Bundle.isExist, slash, join, isAbsolute, fileAt, endsWithSeparator], ?_⟩
  have path : (located ("/" ++ label 0)).getAssetsPath name = "/" ++ label 0 := by
    simp [Bundle.getAssetsPath, located_assetsPath, slash, isAbsolute, withoutFirst, join]
  have unlinked : t.link [label 0] = none := by simp [FileTree.Tree.link, put_node put]
  have there : t.isDirectory [] = true := decide_eq_true t.root
  have walked : t.walk (toPath ("/" ++ label 0)) = some [label 0] := by
    simp [FileTree.Tree.walk, toPath_label, FileTree.Tree.origin, next_name there unlinked]
  rw [path]
  exact fileAt_eq_some (endsWithSeparator_label 0) walked (by simp [put_node put])

theorem named_in_components {text name : String} (member : .name name ∈ (toPath text).segments) :
    name ∈ components text := by
  obtain ⟨component, among, segment⟩ := List.mem_map.mp member
  unfold toSegment at segment
  split at segment
  · cases segment
  · split at segment
    · cases segment
    · cases segment
      exact among

theorem fileAt_unreached {t : FileTree.Tree String} {text : String} (absolute : isAbsolute text = true)
    (unnamed : ∀ name ∈ components text, t.node [name] = none) : fileAt t text = none := by
  unfold fileAt
  split
  · rfl
  · cases walked : t.walk (toPath text) with
    | none => rfl
    | some place =>
      have origin : t.origin (toPath text) = [] := by simp [FileTree.Tree.origin, toPath, absolute]
      rw [FileTree.Tree.walk, origin] at walked
      rcases walk_unnamed _ (.inl rfl) (fun name member => unnamed name (named_in_components member)) walked with
        rfl | absent
      · simp [show t.node [] = some .directory from t.root]
      · simp [absent]

theorem slashed_name_apart {name : String} (slashed : Slashed name) :
    ∃ (b : Bundle) (t : FileTree.Tree String), b.isExist t name = false ∧ fileAt t (b.getAssetsPath name) = some [] := by
  obtain ⟨absolute, relative, empty | ⟨file, last⟩⟩ := slashed
  · apply slash_apart
    rw [eq_slash_append absolute, empty]
    rfl
  · have text := eq_slash_append absolute
    have nonempty : withoutFirst name ≠ "" := by
      intro empty
      simp [empty, lastSegment, toPath, components] at last
    have open_ : endsWithSeparator (withoutFirst name) = false := by
      by_contra closed
      simp [lastSegment, Bool.eq_true_of_not_eq_false closed] at last
    obtain ⟨before, split⟩ : ∃ before, (toPath (withoutFirst name)).segments = before ++ [.name file] := by
      rw [lastSegment, if_neg (by simp [open_])] at last
      cases ends : (toPath (withoutFirst name)).segments.getLast? with
      | none => simp [ends] at last
      | some segment =>
        rw [← last, ends]
        exact List.getLast?_eq_some_iff.mp ends
    obtain ⟨t, n, ⟨target, walked, found⟩, unnamed⟩ :=
      exists_reached label label_injective (components (withoutFirst name)) file before
    refine ⟨located ("/" ++ label n), t, ?_, ?_⟩
    · have elsewhere : fileAt t name = none := by
        apply fileAt_unreached absolute
        rw [text, components_separator]
        exact unnamed
      simp [Bundle.isExist, join, absolute, elsewhere]
    · have path := toPath_join (assetsPath_ne_empty (located ("/" ++ label n))) relative nonempty
      simp only [located_assetsPath, toPath_label] at path
      have still : endsWithSeparator (join ("/" ++ label n) (withoutFirst name)) = false := by
        rw [endsWithSeparator_join _ nonempty, open_]
      have reached : t.walk (toPath (join ("/" ++ label n) (withoutFirst name))) = some target := by
        simpa [FileTree.Tree.walk, path, FileTree.Tree.origin, isAbsolute, split] using walked
      rw [Bundle.getAssetsPath, if_pos absolute, located_assetsPath]
      exact fileAt_eq_some still reached found

/-- In every bundle and file system the check and the reads agree, unless the file
    holds `null`, exactly when the name does not begin with a single slash. -/
theorem check_agrees_iff (empty : (decode []).bind jsonDecode ≠ some none) (name : String) :
    (∀ (b : Bundle) (t : FileTree.Tree String),
      b.Faithful decode jsonDecode t name ↔ ¬ b.HoldsNull decode jsonDecode t name) ↔ ¬ Slashed name := by
  constructor
  · intro agree slashed
    obtain ⟨b, t, unchecked, opened⟩ := slashed_name_apart slashed
    have readable : ¬ b.HoldsNull decode jsonDecode t name := by
      simpa [Bundle.HoldsNull, opened] using empty
    have faithful := (faithful_iff decode jsonDecode b t name).mp ((agree b t).mpr readable)
    simp [unchecked, opened] at faithful
  · intro plain b t
    simp [faithful_iff, isExist_eq plain]

/-- With texts of one byte a character, of which only `null` and the empty map are decoded. -/
theorem check_agrees_iff_ascii :
    let decode (bytes : List UInt8) : Option String :=
      if bytes.all (· < 128) then some (String.ofList (bytes.map fun byte => Char.ofNat byte.toNat)) else none
    let jsonDecode (text : String) : Option (Option (List (String × String))) :=
      if text = "null" then some none else if text.toList = ['{', '}'] then some (some []) else none
    (decode []).bind jsonDecode ≠ some none ∧
      ((∀ (b : Bundle) (t : FileTree.Tree String),
        b.Faithful decode jsonDecode t "app.json" ↔ ¬ b.HoldsNull decode jsonDecode t "app.json") ↔
      ¬ Slashed "app.json") := by
  intro decode jsonDecode
  have empty : (decode []).bind jsonDecode ≠ some none := by decide +kernel
  exact ⟨empty, check_agrees_iff decode jsonDecode empty "app.json"⟩

/-- A file of the bundle is read under a name for which the check does not find it. -/
theorem slash_hides_file :
    ∃ t ∈ FileTree.Tree.build [(["app"], .directory), (["sano", "app"], .directory), (["1", "sano", "app"], .directory),
        (["app.json", "1", "sano", "app"], .file [])],
      (sample .asset).readAsBytes t "/app.json" = .ok [] ∧ (sample .asset).isExist t "/app.json" = false := by
  decide +kernel

end Agreement

end Sano.Framework
