import Sano.Render.Attributes

namespace Sano.Render.Widget

open Parse

section Builders

structure ContainerStyle where
  alignment : Option Parse.Alignment
  padding : Option EdgeInsets
  color : Option Color
  decoration : Option BoxDecoration
  foregroundDecoration : Option BoxDecoration
  width : Option Float64
  height : Option Float64
  margin : Option EdgeInsets
  clipBehavior : Clip

structure Label where
  data : String
  style : Option TextStyle
  textAlign : Option TextAlign
  textDirection : Option TextDirection
  overflow : Option TextOverflow
  textScaleFactor : Option Float64
  maxLines : Option Int
  semanticsLabel : Option String
  textWidthBasis : Option TextWidthBasis

structure FlexStyle where
  mainAxisAlignment : MainAxisAlignment
  crossAxisAlignment : CrossAxisAlignment
  mainAxisSize : MainAxisSize
  textDirection : Option TextDirection
  verticalDirection : VerticalDirection
  textBaseline : Option TextBaseline

/-- What one builder returns, over the widgets of its children. -/
inductive Layer (γ : Type) where
  | container (style : ContainerStyle) (child : Option γ)
  | text (label : Label)
  | row (style : FlexStyle) (children : List γ)
  | column (style : FlexStyle) (children : List γ)
  | scaffold (body floatingActionButton : Option γ)
  | unregistered (tag : String)
  | failed (error : Thrown)

variable {γ δ : Type} (dart : Library)

def containerStyle (props : Object) : Except Thrown ContainerStyle := do
  let place := alignment (← stringOf props "alignment")
  let padding ← edgeInsets dart (← mapOf props "padding")
  let color ← colorOf props "color"
  let decoration ← boxDecoration dart (← mapOf props "decoration")
  let foregroundDecoration ← boxDecoration dart (← mapOf props "foreground-decoration")
  let width ← doubleOf props dart "width"
  let height ← doubleOf props dart "height"
  let margin ← edgeInsets dart (← mapOf props "margin")
  let clipBehavior := (clip (← stringOf props "clip-behavior")).getD .none
  return ⟨place, padding, color, decoration, foregroundDecoration, width, height, margin, clipBehavior⟩

def label (props : Object) : Except Thrown Label := do
  let data := (← stringOf props "text").getD ""
  let style ← textStyle dart (← mapOf props "style")
  let align := textAlign (← stringOf props "text-align")
  let direction := textDirection (← stringOf props "text-direction")
  let clipped := overflow (← stringOf props "overflow")
  let textScaleFactor ← doubleOf props dart "text-scale-factor"
  let maxLines ← intOf props dart "max-lines"
  let semanticsLabel ← stringOf props "semantics-label"
  let basis := textWidthBasis (← stringOf props "text-width-basis")
  return ⟨data, style, align, direction, clipped, textScaleFactor, maxLines, semanticsLabel, basis⟩

def flexStyle (props : Object) : Except Thrown FlexStyle := do
  let main := mainAxisAlignment (← stringOf props "main-axis-alignment")
  let cross := crossAxisAlignment (← stringOf props "cross-axis-alignment")
  let size := mainAxisSize (← stringOf props "main-axis-size")
  let direction := textDirection (← stringOf props "text-direction")
  let vertical := verticalDirection (← stringOf props "vertical-direction")
  let baseline := textBaseline (← stringOf props "text-baseline")
  return ⟨main, cross, size, direction, vertical, baseline⟩

def last : Option (List γ) → Except Thrown (Option γ)
  | none => .ok none
  | some children => children.getLast?.elim (.error .stateError) fun child => .ok (some child)

/-- `element as ScaffoldElement` comes first. -/
def scaffold (isScaffold : Bool) (_ : Object) (children : Option (List γ)) (floatingActionButton : Option γ) :
    Except Thrown (Layer γ) := do
  unless isScaffold do throw Thrown.typeError
  let body ← last children
  return .scaffold body floatingActionButton

def container (props : Object) (children : Option (List γ)) (_ : Option γ) : Except Thrown (Layer γ) := do
  let style ← containerStyle dart props
  let child ← last children
  return .container style child

def text (props : Object) (_ : Option (List γ)) (_ : Option γ) : Except Thrown (Layer γ) := do
  let label ← label dart props
  return .text label

def row (props : Object) (children : Option (List γ)) (_ : Option γ) : Except Thrown (Layer γ) := do
  let style ← flexStyle props
  return .row style (children.getD [])

def column (props : Object) (children : Option (List γ)) (_ : Option γ) : Except Thrown (Layer γ) := do
  let style ← flexStyle props
  return .column style (children.getD [])

def widgets (isScaffold : Bool) : List (String × (Object → Option (List γ) → Option γ → Except Thrown (Layer γ))) :=
  [("container", container dart), ("text", text dart), ("row", row), ("column", column),
    ("scaffold", scaffold isScaffold)]

/-- The builder of the `ValueListenableBuilder`. When it throws, the framework shows the error
    in its place. -/
def builder (isScaffold : Bool) (tag : String) (props : Object) (children : Option (List γ))
    (floatingActionButton : Option γ) : Layer γ :=
  match (widgets dart isScaffold).lookup tag with
  | none => .unregistered tag
  | some build =>
    match build props children floatingActionButton with
    | .ok layer => layer
    | .error error => .failed error

end Builders

section Layers

variable {γ δ : Type}

def Layer.map (f : γ → δ) : Layer γ → Layer δ
  | .container style child => .container style (child.map f)
  | .text label => .text label
  | .row style children => .row style (children.map f)
  | .column style children => .column style (children.map f)
  | .scaffold body floatingActionButton => .scaffold (body.map f) (floatingActionButton.map f)
  | .unregistered tag => .unregistered tag
  | .failed error => .failed error

def Layer.parts : Layer γ → List γ
  | .container _ child => child.toList
  | .text _ => []
  | .row _ children => children
  | .column _ children => children
  | .scaffold body floatingActionButton => body.toList ++ floatingActionButton.toList
  | .unregistered _ => []
  | .failed _ => []

theorem Layer.map_map {ε : Type} (layer : Layer γ) (f : γ → δ) (g : δ → ε) : (layer.map f).map g = layer.map (g ∘ f) := by
  cases layer <;> simp [Layer.map]

theorem Layer.map_congr {layer : Layer γ} {f g : γ → δ} (same : ∀ part ∈ layer.parts, f part = g part) :
    layer.map f = layer.map g := by
  cases layer with
  | container style child =>
    refine congrArg (Layer.container style) (Option.map_congr fun part member => same part ?_)
    simpa [Layer.parts] using member
  | text label => rfl
  | row style children => exact congrArg (Layer.row style) (List.map_congr_left same)
  | column style children => exact congrArg (Layer.column style) (List.map_congr_left same)
  | scaffold body floatingActionButton =>
    have first : body.map f = body.map g := Option.map_congr fun part member => same part (by simp [Layer.parts, member])
    have second : floatingActionButton.map f = floatingActionButton.map g :=
      Option.map_congr fun part member => same part (by simp [Layer.parts, member])
    simp only [Layer.map, first, second]
  | unregistered tag => rfl
  | failed error => rfl

theorem last_map (f : γ → δ) (children : Option (List γ)) :
    last (children.map (List.map f)) = (last children).map (Option.map f) := by
  cases children with
  | none => rfl
  | some children =>
    simp only [last, Option.map_some, List.getLast?_map]
    cases children.getLast? <;> rfl

section Natural

variable (dart : Library) (isScaffold : Bool) (f : γ → δ) (props : Object) (children : Option (List γ)) (button : Option γ)

theorem container_map : container dart props (children.map (List.map f)) (button.map f) =
    (container dart props children button).map (Layer.map f) := by
  unfold container
  rw [last_map]
  cases containerStyle dart props <;> cases last children <;> rfl

theorem text_map : text dart props (children.map (List.map f)) (button.map f) =
    (text dart props children button).map (Layer.map f) := by
  unfold text
  cases label dart props <;> rfl

theorem row_map : row props (children.map (List.map f)) (button.map f) =
    (row props children button).map (Layer.map f) := by
  unfold row
  cases flexStyle props <;> cases children <;> rfl

theorem column_map : column props (children.map (List.map f)) (button.map f) =
    (column props children button).map (Layer.map f) := by
  unfold column
  cases flexStyle props <;> cases children <;> rfl

theorem scaffold_map : scaffold isScaffold props (children.map (List.map f)) (button.map f) =
    (scaffold isScaffold props children button).map (Layer.map f) := by
  unfold scaffold
  rw [last_map]
  cases isScaffold <;> cases last children <;> rfl

theorem widgets_map (tag : String) :
    ((widgets (γ := γ) dart isScaffold).lookup tag = none ∧ (widgets (γ := δ) dart isScaffold).lookup tag = none) ∨
    ∃ build build', (widgets dart isScaffold).lookup tag = some build ∧ (widgets dart isScaffold).lookup tag = some build' ∧
      build' props (children.map (List.map f)) (button.map f) = (build props children button).map (Layer.map f) := by
  simp only [widgets, List.lookup_cons, List.lookup_nil]
  cases tag == "container" with
  | true => exact .inr ⟨_, _, rfl, rfl, container_map dart f props children button⟩
  | false =>
    cases tag == "text" with
    | true => exact .inr ⟨_, _, rfl, rfl, text_map dart f props children button⟩
    | false =>
      cases tag == "row" with
      | true => exact .inr ⟨_, _, rfl, rfl, row_map f props children button⟩
      | false =>
        cases tag == "column" with
        | true => exact .inr ⟨_, _, rfl, rfl, column_map f props children button⟩
        | false =>
          cases tag == "scaffold" with
          | true => exact .inr ⟨_, _, rfl, rfl, scaffold_map isScaffold f props children button⟩
          | false => exact .inl ⟨rfl, rfl⟩

/-- A layer is made without a look at the children. -/
theorem builder_map (tag : String) : builder dart isScaffold tag props (children.map (List.map f)) (button.map f) =
    (builder dart isScaffold tag props children button).map f := by
  unfold builder
  obtain ⟨none, none'⟩ | ⟨build, build', found, found', natural⟩ := widgets_map dart isScaffold f props children button tag
  · rw [none, none']
    rfl
  · simp only [found, found', natural]
    cases build props children button <;> rfl

theorem Layer.parts_map (layer : Layer γ) : (layer.map f).parts = layer.parts.map f := by
  cases layer with
  | container style child => cases child <;> rfl
  | scaffold body floatingActionButton => cases body <;> cases floatingActionButton <;> rfl
  | text label => rfl
  | row style children => rfl
  | column style children => rfl
  | unregistered tag => rfl
  | failed error => rfl

/-- So nothing else stands in a layer than the children and the button. -/
theorem builder_parts {P : γ → Prop} (inside : ∀ child ∈ children.getD [], P child)
    (floating : ∀ child, button = some child → P child) {tag : String} {part : γ}
    (member : part ∈ (builder dart isScaffold tag props children button).parts) : P part := by
  obtain ⟨kids, same⟩ : ∃ kids : Option (List { child : γ // P child }), kids.map (List.map Subtype.val) = children := by
    cases children with
    | none => exact ⟨none, rfl⟩
    | some children =>
      refine ⟨some (children.attach.map fun child => ⟨child.1, inside child.1 child.2⟩), ?_⟩
      simp
  obtain ⟨slot, same'⟩ : ∃ slot : Option { child : γ // P child }, slot.map Subtype.val = button := by
    cases button with
    | none => exact ⟨none, rfl⟩
    | some child => exact ⟨some ⟨child, floating child rfl⟩, rfl⟩
  rw [← same, ← same', builder_map, Layer.parts_map] at member
  obtain ⟨⟨_, known⟩, _, rfl⟩ := List.mem_map.mp member
  exact known

theorem tag_cases (tag : String) : tag = "container" ∨ tag = "text" ∨ tag = "row" ∨ tag = "column" ∨ tag = "scaffold" ∨
    ∀ isScaffold, (widgets (γ := γ) dart isScaffold).lookup tag = none := by
  by_cases known : tag = "container" ∨ tag = "text" ∨ tag = "row" ∨ tag = "column" ∨ tag = "scaffold"
  · rcases known with rfl | rfl | rfl | rfl | rfl <;> simp
  · simp only [not_or] at known
    obtain ⟨container, text, row, column, scaffold⟩ := known
    simp only [widgets, List.lookup_cons, List.lookup_nil, beq_eq_false_iff_ne.mpr container, beq_eq_false_iff_ne.mpr text,
      beq_eq_false_iff_ne.mpr row, beq_eq_false_iff_ne.mpr column, beq_eq_false_iff_ne.mpr scaffold, implies_true, or_true]

/-- Only a scaffold is cast and has a slot. -/
theorem builder_plain {tag : String} (other : tag ≠ "scaffold") (isScaffold' : Bool) (button' : Option γ) :
    builder dart isScaffold tag props children button = builder dart isScaffold' tag props children button' := by
  rcases tag_cases (γ := γ) dart tag with rfl | rfl | rfl | rfl | rfl | unknown
  · simp [builder, widgets, container]
  · simp [builder, widgets, List.lookup_cons, text]
  · simp [builder, widgets, List.lookup_cons, row]
  · simp [builder, widgets, List.lookup_cons, column]
  · exact absurd rfl other
  · simp [builder, unknown]

end Natural

end Layers

end Sano.Render.Widget
