import Sano.Render.Json
import Sano.Render.Parse

namespace Sano.Render.Parse

section Choices

def chosen {α : Type} (table : List (String × α)) (value : Option String) : Option α :=
  value.bind fun name => table.lookup name

inductive Alignment where
  | topLeft | topCenter | topRight | bottomLeft | bottomCenter | bottomRight | centerLeft | center | centerRight
deriving DecidableEq

def alignment : Option String → Option Alignment :=
  chosen [("top-left", .topLeft), ("top-center", .topCenter), ("top-right", .topRight), ("bottom-left", .bottomLeft),
    ("bottom-center", .bottomCenter), ("bottom-right", .bottomRight), ("center-left", .centerLeft), ("center", .center),
    ("center-right", .centerRight)]

inductive Clip where
  | none | antiAlias | antiAliasWithSaveLayer | hardEdge
deriving DecidableEq

def clip : Option String → Option Clip :=
  chosen [("antiAlias", .antiAlias), ("antiAliasWithSaveLayer", .antiAliasWithSaveLayer), ("hardEdge", .hardEdge)]

inductive BoxFit where
  | fill | contain | cover | fitWidth | fitHeight | none | scaleDown
deriving DecidableEq

def boxFit : Option String → Option BoxFit :=
  chosen [("fill", .fill), ("contain", .contain), ("cover", .cover), ("fit-width", .fitWidth),
    ("fit-height", .fitHeight), ("none", .none), ("scale-down", .scaleDown)]

inductive BoxShape where
  | rectangle | circle
deriving DecidableEq

/-- The source gives the circle the name of the rectangle. -/
def boxShape (value : Option String) : BoxShape := (chosen [("rectangle", .circle)] value).getD .rectangle

inductive ImageRepeat where
  | both | repeatY | repeatX | noRepeat
deriving DecidableEq

def imageRepeat (value : Option String) : ImageRepeat :=
  (chosen [("repeat", .both), ("repeat-y", .repeatY), ("repeat-x", .repeatX)] value).getD .noRepeat

inductive FilterQuality where
  | high | low | medium
deriving DecidableEq

def filterQuality : Option String → Option FilterQuality :=
  chosen [("high", .high), ("low", .low), ("medium", .medium)]

inductive BorderStyle where
  | none | solid
deriving DecidableEq

def borderStyle (value : Option String) : BorderStyle := (chosen [("none", .none)] value).getD .solid

inductive MainAxisAlignment where
  | start | atEnd | center | spaceBetween | spaceAround | spaceEvenly
deriving DecidableEq

def mainAxisAlignment (value : Option String) : MainAxisAlignment :=
  (chosen [("start", .start), ("end", .atEnd), ("center", .center), ("space-between", .spaceBetween),
    ("space-around", .spaceAround), ("space-evenly", .spaceEvenly)] value).getD .start

inductive CrossAxisAlignment where
  | start | atEnd | center | stretch | baseline
deriving DecidableEq

def crossAxisAlignment (value : Option String) : CrossAxisAlignment :=
  (chosen [("start", .start), ("end", .atEnd), ("center", .center), ("stretch", .stretch), ("baseline", .baseline)]
    value).getD .center

inductive MainAxisSize where
  | min | max
deriving DecidableEq

def mainAxisSize (value : Option String) : MainAxisSize := (chosen [("min", .min)] value).getD .max

inductive TextDirection where
  | rtl | ltr
deriving DecidableEq

def textDirection : Option String → Option TextDirection := chosen [("rtl", .rtl), ("ltr", .ltr)]

inductive VerticalDirection where
  | up | down
deriving DecidableEq

def verticalDirection (value : Option String) : VerticalDirection := (chosen [("up", .up)] value).getD .down

inductive TextBaseline where
  | alphabetic | ideographic
deriving DecidableEq

def textBaseline : Option String → Option TextBaseline :=
  chosen [("alphabetic", .alphabetic), ("ideographic", .ideographic)]

inductive TextAlign where
  | left | right | center | justify | start | atEnd
deriving DecidableEq

def textAlign : Option String → Option TextAlign :=
  chosen [("left", .left), ("right", .right), ("center", .center), ("justify", .justify), ("start", .start),
    ("end", .atEnd)]

inductive FontWeight where
  | w100 | w200 | w300 | w400 | w500 | w600 | w700 | w800 | w900
deriving DecidableEq

def fontWeight : Option String → Option FontWeight :=
  chosen [("100", .w100), ("200", .w200), ("300", .w300), ("400", .w400), ("500", .w500), ("600", .w600),
    ("700", .w700), ("800", .w800), ("900", .w900), ("bold", .w700), ("normal", .w400)]

inductive TextDecoration where
  | lineThrough | overline | underline | none
deriving DecidableEq

def textDecoration : Option String → Option TextDecoration :=
  chosen [("line-through", .lineThrough), ("overline", .overline), ("underline", .underline), ("none", .none)]

inductive TextOverflow where
  | clip | ellipsis | fade | visible
deriving DecidableEq

def overflow : Option String → Option TextOverflow :=
  chosen [("clip", .clip), ("ellipsis", .ellipsis), ("fade", .fade), ("visible", .visible)]

inductive TextWidthBasis where
  | longestLine | parent
deriving DecidableEq

def textWidthBasis : Option String → Option TextWidthBasis :=
  chosen [("longest-line", .longestLine), ("parent", .parent)]

inductive FontStyle where
  | italic | normal
deriving DecidableEq

def fontStyle : Option String → Option FontStyle := chosen [("italic", .italic), ("normal", .normal)]

inductive TextLeadingDistribution where
  | even | proportional
deriving DecidableEq

def textLeadingDistribution : Option String → Option TextLeadingDistribution :=
  chosen [("even", .even), ("proportional", .proportional)]

end Choices

section Fields

/-- `stateError` is thrown by `last` for an empty list. -/
inductive Thrown where
  | typeError
  | formatException
  | rangeError
  | stateError
deriving DecidableEq

def Fault.thrown : Fault → Thrown
  | .formatException => .formatException
  | .rangeError => .rangeError

def lifted {α : Type} (result : Except Fault α) : Except Thrown α := result.mapError Fault.thrown

def asked {α : Type} : Option α → Except Thrown α
  | some value => .ok value
  | none => .error .typeError

variable (object : Object)

def stringOf (key : String) : Except Thrown (Option String) :=
  match object.field key with
  | .null => .ok none
  | value => asked (value.asString.map some)

def mapOf (key : String) : Except Thrown (Option Object) := asked (object.field key).asMapOrNull

def boolOf (key : String) : Except Thrown (Option Bool) :=
  match object.field key with
  | .null => .ok none
  | .bool value => .ok (some value)
  | _ => .error .typeError

def colorOf (key : String) : Except Thrown (Option Color) := do
  let name ← stringOf object key
  lifted (color (name.map text))

/-- What Dart itself makes of texts and values: `double.parse`, with `none` for its exception,
    and `toString`. -/
structure Library where
  doubleParse : String → Option Float64
  toString : Json → String

variable (dart : Library)

def positiveInfinity : Float64 := 0x7ff0000000000000

def toDouble : Option String → Except Thrown (Option Float64)
  | none => .ok none
  | some value =>
    if value = "infinity" then .ok (some positiveInfinity)
    else (dart.doubleParse value).elim (.error .formatException) fun number => .ok (some number)

def shown (key : String) : Option String :=
  match object.field key with
  | .null => none
  | value => some (dart.toString value)

def doubleOf (key : String) : Except Thrown (Option Float64) := toDouble dart (shown object dart key)

def intOf (key : String) : Except Thrown (Option Int) := lifted (toInt ((shown object dart key).map text))

end Fields

section Boxes

variable (dart : Library)

def zero : Float64 := 0

def one : Float64 := 0x3ff0000000000000

structure EdgeInsets where
  left : Float64
  top : Float64
  right : Float64
  bottom : Float64
deriving DecidableEq

def edgeInsets : Option Object → Except Thrown (Option EdgeInsets)
  | none => .ok none
  | some value => do
    if value.containsKey "all" then
      let all := (← doubleOf value dart "all").getD zero
      return some ⟨all, all, all, all⟩
    else if value.containsKey "vertical" || value.containsKey "horizontal" then
      let vertical := (← doubleOf value dart "vertical").getD zero
      let horizontal := (← doubleOf value dart "horizontal").getD zero
      return some ⟨horizontal, vertical, horizontal, vertical⟩
    else
      let top := (← doubleOf value dart "top").getD zero
      let right := (← doubleOf value dart "right").getD zero
      let bottom := (← doubleOf value dart "bottom").getD zero
      let left := (← doubleOf value dart "left").getD zero
      return some ⟨left, top, right, bottom⟩

structure BorderSide where
  width : Float64
  color : Color
  style : BorderStyle
deriving DecidableEq

def black : Color := ⟨0xff000000⟩

def BorderSide.none : BorderSide := ⟨zero, black, .none⟩

def sideOf (value : Object) : Except Thrown BorderSide := do
  let width := (← doubleOf value dart "width").getD one
  let color := (← colorOf value "color").getD black
  let style := borderStyle (← stringOf value "style")
  return ⟨width, color, style⟩

def borderSide : Option Object → Except Thrown BorderSide
  | none => .ok .none
  | some value => sideOf dart value

structure Border where
  top : BorderSide
  right : BorderSide
  bottom : BorderSide
  left : BorderSide
deriving DecidableEq

def border : Option Object → Except Thrown (Option Border)
  | none => .ok none
  | some value => do
    if value.containsKey "all" then
      let data ← asked (value.field "all").asMap
      let side ← sideOf dart data
      return some ⟨side, side, side, side⟩
    else
      let top ← borderSide dart (← mapOf value "top")
      let right ← borderSide dart (← mapOf value "right")
      let bottom ← borderSide dart (← mapOf value "bottom")
      let left ← borderSide dart (← mapOf value "left")
      return some ⟨top, right, bottom, left⟩

structure BorderRadius where
  topLeft : Float64
  topRight : Float64
  bottomLeft : Float64
  bottomRight : Float64
deriving DecidableEq

def radius (value : Object) (key : String) : Except Thrown Float64 := do
  if value.containsKey key then return (← doubleOf value dart key).getD zero
  else return zero

def borderRadius : Option Object → Except Thrown (Option BorderRadius)
  | none => .ok none
  | some value => do
    if value.containsKey "all" then
      let all := (← doubleOf value dart "all").getD zero
      return some ⟨all, all, all, all⟩
    else
      let topLeft ← radius dart value "top-left"
      let topRight ← radius dart value "top-right"
      let bottomLeft ← radius dart value "bottom-left"
      let bottomRight ← radius dart value "bottom-right"
      return some ⟨topLeft, topRight, bottomLeft, bottomRight⟩

structure DecorationImage where
  image : ImageProvider
  fit : Option BoxFit
  alignment : Alignment
  tiles : ImageRepeat
  matchTextDirection : Bool
  scale : Float64
  opacity : Float64
  filterQuality : FilterQuality
  invertColors : Bool
  isAntiAlias : Bool

def decorationImage : Option Object → Except Thrown (Option DecorationImage)
  | none => .ok none
  | some value => do
    match ← stringOf value "image" with
    | none => return none
    | some image =>
      let provider ← lifted (imageProvider (text image) (some false))
      let fit := boxFit (← stringOf value "fit")
      let place := (alignment (← stringOf value "alignment")).getD .center
      let tiles := imageRepeat (← stringOf value "repeat")
      let matchTextDirection := (← boolOf value "match-text-direction").getD false
      let scale := (← doubleOf value dart "scale").getD one
      let opacity := (← doubleOf value dart "opacity").getD one
      let quality := (filterQuality (← stringOf value "filter-quality")).getD .low
      let invertColors := (← boolOf value "invert-colors").getD false
      let isAntiAlias := (← boolOf value "is-anti-alias").getD false
      return some ⟨provider, fit, place, tiles, matchTextDirection, scale, opacity, quality, invertColors, isAntiAlias⟩

structure BoxDecoration where
  color : Option Color
  image : Option DecorationImage
  border : Option Border
  borderRadius : Option BorderRadius
  shape : BoxShape

def boxDecoration : Option Object → Except Thrown (Option BoxDecoration)
  | none => .ok none
  | some value => do
    let color ← colorOf value "color"
    let image ← decorationImage dart (← mapOf value "image")
    let frame ← border dart (← mapOf value "border")
    let corners ← borderRadius dart (← mapOf value "border-radius")
    let shape := boxShape (← stringOf value "shape")
    return some ⟨color, image, frame, corners, shape⟩

structure TextStyle where
  inherits : Bool
  color : Option Color
  backgroundColor : Option Color
  fontSize : Option Float64
  fontWeight : Option FontWeight
  fontStyle : Option FontStyle
  letterSpacing : Option Float64
  wordSpacing : Option Float64
  textBaseline : Option TextBaseline
  height : Option Float64
  leadingDistribution : Option TextLeadingDistribution
  decoration : Option TextDecoration
  decorationColor : Option Color
  package : Option String

def textStyle : Option Object → Except Thrown (Option TextStyle)
  | none => .ok none
  | some value => do
    let inherits := (← boolOf value "inherit").getD true
    let color ← colorOf value "color"
    let backgroundColor ← colorOf value "background-color"
    let fontSize ← doubleOf value dart "font-size"
    let weight := fontWeight (shown value dart "font-weight")
    let style := fontStyle (← stringOf value "font-style")
    let letterSpacing ← doubleOf value dart "letter-spacing"
    let wordSpacing ← doubleOf value dart "word-spacing"
    let baseline := textBaseline (← stringOf value "text-baseline")
    let height ← doubleOf value dart "line-height"
    let leading := textLeadingDistribution (← stringOf value "leading-distribution")
    let decoration := textDecoration (← stringOf value "text-decoration")
    let decorationColor ← colorOf value "text-decoration-color"
    let package ← stringOf value "package"
    return some ⟨inherits, color, backgroundColor, fontSize, weight, style, letterSpacing, wordSpacing, baseline, height,
      leading, decoration, decorationColor, package⟩

end Boxes

end Sano.Render.Parse
