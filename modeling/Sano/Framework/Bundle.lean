import Sano.Base.Run
import Sano.Framework.Written

namespace Sano.Framework

open FileTree

section Model

inductive Kind where
  | network
  | asset

/-- A bundle with the path of the application's support directory. `source` are
    the bytes at its url and `archive` is what `decodeBytes` makes of them; it
    throws when there is none. -/
structure Bundle where
  kind : Kind
  url : String
  version : String
  support : String
  source : List UInt8
  archive : Option (List ArchiveFile)

def Bundle.assetsPath (b : Bundle) : String := join (join b.support "sano") b.version

def basename (text : String) : String := (components text).getLast?.getD ""

def extension (text : String) : String :=
  let name := (basename text).toList.reverse
  if basename text = ".." then ""
  else
    match name.dropWhile (· ≠ '.') with
    | _ :: _ :: _ => String.ofList ('.' :: (name.takeWhile (· ≠ '.')).reverse)
    | _ => ""

/-- The steps of `resolve`. The file at `url` and the downloaded file lie outside
    the tree. A `guarded` step is in the `try` of `_zipDecoder`. -/
inductive Action where
  | lookup
  | check
  | download
  | create (command : Command)
  | guarded (command : Command)
  | undecodable
  | change (segment : Segment String)
  | rename (segment : Segment String)
deriving DecidableEq

def Bundle.unpack (b : Bundle) : List Action :=
  match b.archive with
  | some archive => (zipDecoder b.assetsPath archive).map .guarded
  | none => [.guarded .readAsBytes, .undecodable]

def rename (target : String) : List Action :=
  .create (.start (toPath target)) :: ((toPath target).segments.dropLast.map .change ++
    [.rename ((toPath target).segments.getLast?.getD .here)])

def Bundle.lookups (b : Bundle) : List Action :=
  match b.kind with
  | .network => [.lookup, .lookup]
  | .asset => [.lookup]

def Bundle.work (b : Bundle) : List Action :=
  match b.kind with
  | .network =>
    (createDirectory b.assetsPath).map .create ++ .download ::
      if extension b.url = ".js" then rename (join b.assetsPath (basename b.url)) else b.unpack
  | .asset => if extension b.url = ".js" then rename (join b.assetsPath "main.js") else b.unpack

def act (b : Bundle) (c : Cursor String) : Action → Option (Cursor String)
  | .lookup => some c
  | .check => some c
  | .download => some c
  | .create command => perform c command
  | .guarded command => perform c command
  | .undecodable => none
  | .change segment => c.change segment
  | .rename segment =>
    match segment with
    | .name name => (c.tree.put (name :: c.place) (.file b.source)).map fun tree => ⟨tree, name :: c.place⟩
    | _ => none

def Action.isGuarded : Action → Bool
  | .guarded _ => true
  | .undecodable => true
  | _ => false

def Bundle.isPresent (b : Bundle) (t : FileTree.Tree String) : Bool := (t.walk (toPath b.assetsPath)).any t.isDirectory

inductive Phase where
  | idle
  | running (todo : List Action)
  | returned
deriving DecidableEq

/-- `deletes` counts the clean-up deletes that have been asked for and not been carried out: nobody awaits them. -/
structure Device where
  cursor : Cursor String
  phase : Phase
  deletes : Nat

/-- The next step of the running call and a clean-up delete work or fail; `halt` is the end of the process. -/
inductive Event where
  | resolve
  | next (works : Bool)
  | delete (works : Bool)
  | halt

def deleted (b : Bundle) (t : FileTree.Tree String) (works : Bool) : FileTree.Tree String :=
  if works then delete t (toPath b.assetsPath) else t

/-- With `kDebugMode` the version directory counts as missing. -/
def Bundle.remaining (b : Bundle) (kDebugMode : Bool) (t : FileTree.Tree String) (action : Action)
    (rest : List Action) : List Action :=
  match action with
  | .check => if !kDebugMode && b.isPresent t then [] else rest
  | _ => rest

def step (kDebugMode : Bool) (b : Bundle) (s : Device) : Event → Device
  | .resolve =>
    match s.phase with
    | .running _ => s
    | _ => { s with phase := .running (b.lookups ++ .check :: b.work) }
  | .next works =>
    match s.phase with
    | .running [] => { s with phase := .returned }
    | .running (action :: rest) =>
      match if works then act b s.cursor action else none with
      | some cursor => { s with cursor := cursor, phase := .running (b.remaining kDebugMode s.cursor.tree action rest) }
      | none => { s with phase := .idle, deletes := if action.isGuarded then s.deletes + 1 else s.deletes }
    | _ => s
  | .delete works =>
    if s.deletes = 0 then s
    else { s with cursor := { s.cursor with tree := deleted b s.cursor.tree works }, deletes := s.deletes - 1 }
  | .halt => { s with phase := .idle, deletes := 0 }

def Device.start (t : FileTree.Tree String) : Device := ⟨⟨t, []⟩, .idle, 0⟩

end Model

section Steps

def actAll (b : Bundle) (c : Cursor String) (actions : List Action) : Option (Cursor String) :=
  actions.foldlM (act b) c

theorem actAll_append (b : Bundle) (c : Cursor String) (first second : List Action) :
    actAll b c (first ++ second) = (actAll b c first).bind fun next => actAll b next second := by
  simp [actAll, List.foldlM_append]

theorem actAll_create (b : Bundle) (c : Cursor String) (commands : List Command) :
    actAll b c (commands.map .create) = performAll c commands := by
  simp only [actAll, List.foldlM_map]
  rfl

theorem actAll_guarded (b : Bundle) (c : Cursor String) (commands : List Command) :
    actAll b c (commands.map .guarded) = performAll c commands := by
  simp only [actAll, List.foldlM_map]
  rfl

theorem rename_asks_nothing (target : String) : .check ∉ rename target := by
  intro member
  simp only [rename, List.mem_cons, reduceCtorEq, List.mem_append, List.mem_map, and_false, exists_false,
    List.not_mem_nil, or_self] at member

theorem unpack_asks_nothing (b : Bundle) : .check ∉ b.unpack := by
  unfold Bundle.unpack
  split <;> simp

theorem work_asks_nothing (b : Bundle) : .check ∉ b.work := by
  unfold Bundle.work
  cases b.kind with
  | network =>
    simp only [List.mem_append, List.mem_map, reduceCtorEq, and_false, exists_false, List.mem_cons, false_or]
    split
    · exact rename_asks_nothing _
    · exact unpack_asks_nothing b
  | asset =>
    simp only
    split
    · exact rename_asks_nothing _
    · exact unpack_asks_nothing b

theorem assetsPath_ne_empty (b : Bundle) : b.assetsPath ≠ "" := by
  apply join_ne_empty
  by_cases named : b.support = ""
  · simp [join, named, isAbsolute]
  · exact join_ne_empty named

theorem assets_start (b : Bundle) (t : FileTree.Tree String) :
    t.isDirectory (t.origin (toPath b.assetsPath)) = true ∨ (toPath b.assetsPath).segments ≠ [] := by
  by_cases relative : isAbsolute b.assetsPath = false
  · exact .inr (by simpa [toPath] using components_ne_nil relative (assetsPath_ne_empty b))
  · have root : t.isDirectory [] = true := decide_eq_true t.root
    exact .inl (by simpa [FileTree.Tree.origin, toPath, relative] using root)

def fresh : FileTree.Tree String := (FileTree.Tree.build [(["app"], .directory)]).getD .empty

def sample (kind : Kind) : Bundle := ⟨kind, "a.zip", "1", "/app", [], some [⟨"m", true, [7]⟩]⟩

end Steps

end Sano.Framework
