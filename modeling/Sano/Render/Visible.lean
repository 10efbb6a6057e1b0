import Sano.Render.Screen

namespace Sano.Render

open Parse Widget

section Layers

variable {γ : Type} {dart : Library}

def showsChild (tag : String) (count index : Nat) : Bool :=
  if tag = "row" ∨ tag = "column" then true
  else if tag = "container" ∨ tag = "scaffold" then index + 1 = count
  else false

def shownChildren (tag : String) (children : List γ) : List γ :=
  (children.zipIdx.filter fun child => showsChild tag children.length child.2).map Prod.fst

def throws (dart : Library) (tag : String) (props : Object) (children : Option (List γ)) : Bool :=
  if tag = "container" then !(containerStyle dart props).isOk || children.any List.isEmpty
  else if tag = "text" then !(label dart props).isOk
  else if tag = "row" ∨ tag = "column" then !(flexStyle props).isOk
  else tag = "scaffold" && children.any List.isEmpty

end Layers

section Places

/-- Whether what stands at a place of a document can be seen. Of a fragment it is the first child. -/
def Doc.visible : List Step → Doc → Bool
  | [], _ => true
  | .child index :: rest, .node _ tag _ _ children _ =>
    showsChild tag (children.getD []).length index && (children.getD [])[index]?.any (visible rest)
  | [.slot], .node _ tag _ _ _ _ => tag = "scaffold"
  | .slot :: .child 0 :: rest, .node _ tag _ _ _ slot => tag = "scaffold" && (slot.bind firstChild).any (visible rest)
  | .slot :: _ :: _, _ => false

variable {dart : Library}

end Places

section Screens

variable {dart : Library} {s : Store}

def Element.shown (heap : List Element) (el : Element) : List Nat :=
  shownChildren el.tag (el.children.getD []) ++
    if el.tag = "scaffold" then ((el.fragment.bind fun f => heap[f]?.bind Element.children).bind List.head?).toList else []

end Screens

section Runs

namespace World

end World

end Runs

end Sano.Render
