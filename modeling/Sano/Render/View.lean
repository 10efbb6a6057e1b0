import Sano.Render.Frame

namespace Sano.Render

section Registry

def rootStep (heap : List Element) (root : Nat → Option Nat) (a : Nat) : Option Nat :=
  match heap[a]? with
  | none => none
  | some el =>
    if el.kind = .root then some a
    else el.parent.bind fun p => if p < a then root p else none

/-- The getter `root`: the parents up to the `RootElement`, which overrides it. -/
def rootOf (heap : List Element) : Nat → Option Nat := Recursion.fix (rootStep heap) none id

/-- `RootElement.emit`. The registry is that of the root, the payload is cast by
    the call. An id without a listener is silently ignored. -/
def emit (listeners : LinkedMap String Nat) (id : String) (value : Json) (now : Int) : Dart Unit := do
  let renderObject ← cast value.asMap
  match listeners.get? id with
  | some e => update e renderObject now
  | none => pure ()

def emitAll (listeners : LinkedMap String Nat) : List (String × Json) → (Nat → Int) → Dart Unit
  | [], _ => pure ()
  | (id, value) :: rest, clock => do
    emit listeners id value (clock 0)
    emitAll listeners rest fun n => clock (n + 1)

end Registry

/-- Everything the render layer of all pages keeps. `ran` counts the
    registration tasks that have run, in creation order. `listeners` holds the
    `_listeners` of each root, `roots` the `_root` of each page, and `mounted` the
    pages whose one-shot mount listener is used up. -/
structure World where
  store : Store := {}
  ran : Nat := 0
  listeners : Nat → LinkedMap String Nat := fun _ => ∅
  roots : LinkedMap String Nat := ∅
  mounted : List String := []
  rebuild : Bool := false

namespace World

def pending (w : World) : List Nat := w.store.scheduled.drop w.ran

def on (w : World) (root : Nat) (id : String) (e : Nat) : World :=
  { w with listeners := Function.update w.listeners root ((w.listeners root).insert id e) }

def off (w : World) (root : Nat) (id : String) : World :=
  { w with listeners := Function.update w.listeners root ((w.listeners root).remove id) }

def register (w : World) (a : Nat) : World :=
  match w.store.heap[a]?, rootOf w.store.heap a with
  | some el, some root => w.on root el.id a
  | _, _ => w

def task (w : World) : World :=
  match w.store.scheduled[w.ran]? with
  | some a => { w with ran := w.ran + 1 }.register a
  | none => w

def channelName (page : String) : String := "sano:channel:" ++ page ++ ":"

def mount (w : World) (page : String) (payload : Json) : World :=
  if page ∈ w.mounted then w
  else
    match rootElement payload (channelName page) w.store with
    | .ok root s =>
      { w with store := s, roots := w.roots.insert page root, mounted := page :: w.mounted, rebuild := true }
    | .error _ s => { w with store := s, mounted := page :: w.mounted }

/-- An exception of an entry ends the loop; what came before it stays. -/
def update (w : World) (page : String) (data : Json) (clock : Nat → Int) : World :=
  match data.asMap, w.roots.get? page with
  | some entries, some root => { w with store := finalState (emitAll (w.listeners root) entries.entries clock w.store) }
  | _, _ => w

def deregister (w : World) (e : Nat) : World :=
  match w.store.heap[e]?, rootOf w.store.heap e with
  | some el, some root => w.off root el.id
  | _, _ => w

def frameOp (w : World) (op : FrameOp) : World :=
  let after := { w with store := w.store.frameOp op }
  match op with
  | .detach e => if e ∈ w.store.builders.map Builder.element then after.deregister e else after
  | _ => after

def frame (w : World) (ops : List FrameOp) : World := { ops.foldl frameOp w with rebuild := false }

inductive Event where
  | mount (page : String) (payload : Json)
  | update (page : String) (data : Json) (clock : Nat → Int)
  | task
  | frame (ops : List FrameOp)

def step (w : World) : Event → World
  | .mount page payload => w.mount page payload
  | .update page data clock => w.update page data clock
  | .task => w.task
  | .frame ops => w.frame ops

def run : List Event → World := Run.final step {}

def Quiet (w : World) : Prop :=
  w.pending = [] ∧ w.rebuild = false ∧ ∀ b ∈ w.store.builders, b.dirty = false

end World

end Sano.Render
