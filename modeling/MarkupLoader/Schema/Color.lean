import MarkupLoader.Decimal.Reader
import MarkupLoader.Schema.Descriptor
import MarkupLoader.Text.Blank
import MarkupLoader.Text.Numeral

/-!
# Colours

A colour has four channels between 0 and 1. It is made from a text of hexadecimal digits, two a
channel, or from four numbers.

Main definitions: `Color.fromHex`, `Color.fromRgba`.
-/

namespace MarkupLoader.Color

open Text

/-- The properties of a colour. -/
def properties (red green blue alpha : Float) : List (String × Value) :=
  [("R", .float red), ("G", .float green), ("B", .float blue), ("A", .float alpha)]

/-- The channels written with two characters each; a plus sign and one digit are a channel
too. -/
def channels? : List Char → Option (List Float)
  | [] => some []
  | a :: b :: rest => do
    let n ← unsigned? 16 [a, b]
    return n.toFloat / 255.0 :: (← channels? rest)
  | [_] => none

/-- The colour that a text of hexadecimal digits gives: red, green and blue, with alpha in front
if there are eight digits. -/
def ofHex? (hex : List Char) : Option (List (String × Value)) :=
  match channels? hex with
  | some [red, green, blue] => some (properties red green blue 1.0)
  | some [alpha, red, green, blue] => some (properties red green blue alpha)
  | _ => none

/-- Makes a colour from a text of hexadecimal digits after any number of hash signs. -/
def fromHex : Factory := fun _ arguments =>
  match arguments with
  | [.string text] =>
    let hex := (trim text.toList).dropWhile (· == '#')
    match ofHex? hex with
    | some color => .ok color
    | none => .error ("'" ++ String.ofList hex ++ "' is not a hex color")
  | _ => .error "FromHex expects a single string argument"

/-- The channel that an argument gives. -/
def channel (kindName : Value → String) : Value → Except String Float
  | .string text =>
    match Decimal.float? (trim text.toList) with
    | some x => .ok x
    | none => .error s!"'{text}' is not a number"
  | value =>
    match value.float? with
    | some x => .ok x
    | none => .error ("cannot use " ++ kindName value ++ " as a color channel")

/-- Makes a colour from four numbers. -/
def fromRgba : Factory := fun kindName arguments => do
  match ← arguments.mapM (channel kindName) with
  | [red, green, blue, alpha] => return properties red green blue alpha
  | _ => throw "FromRgba expects four arguments"

end MarkupLoader.Color
