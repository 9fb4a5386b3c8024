import MarkupLoader.Json.Basic
import MarkupLoader.Text.Numeral

/-!
# Reading JSON

A text is one JSON value with blanks around it, and nothing else. The blanks are space, tab, line
feed and carriage return; strings hold no control characters; numbers have no superfluous zeros.

Every value takes at least one character, so the length of the text bounds the recursion.

Main definition: `JsonValue.read?`.
-/

namespace MarkupLoader.JsonValue

/-- The blanks of the format. -/
def isBlank (c : Char) : Bool := c == ' ' || c == '\t' || c == '\n' || c == '\r'

/-- The text without the blanks it starts with. -/
def skipBlanks (s : List Char) : List Char := s.dropWhile isBlank

/-- What is left of a text after a given beginning. -/
def after? (start : String) (s : List Char) : Option (List Char) :=
  if start.toList.isPrefixOf s then some (s.drop start.length) else none

/-! ## Numbers -/

/-- The digits a text starts with, of which there has to be one, and the rest. -/
def digits? (s : List Char) : Option (List Char × List Char) :=
  if (s.takeWhile Char.isDigit).isEmpty then none
  else some (s.takeWhile Char.isDigit, s.dropWhile Char.isDigit)

/-- The whole part of a number: a zero, or digits that do not start with one. -/
def whole? (s : List Char) : Option (List Char × List Char) :=
  match s with
  | '0' :: rest => some (['0'], rest)
  | _ => digits? s

/-- The point and the digits after it, if there are any. -/
def fraction? : List Char → Option (List Char × List Char)
  | '.' :: rest => (digits? rest).map fun (digits, after) => ('.' :: digits, after)
  | s => some ([], s)

/-- The sign of an exponent, if it has one. -/
def exponentSign : List Char → List Char × List Char
  | '+' :: rest => (['+'], rest)
  | '-' :: rest => (['-'], rest)
  | s => ([], s)

/-- The exponent of a number, if it has one. -/
def exponent? : List Char → Option (List Char × List Char)
  | [] => some ([], [])
  | c :: rest =>
    if c = 'e' ∨ c = 'E' then
      let (sign, digits) := exponentSign rest
      (digits? digits).map fun (digits, after) => (c :: sign ++ digits, after)
    else some ([], c :: rest)

/-- A number and the rest of the text. -/
def number? (s : List Char) : Option (JsonValue × List Char) := do
  let (sign, s) := match s with
    | '-' :: rest => (['-'], rest)
    | _ => ([], s)
  let (whole, s) ← whole? s
  let (fraction, s) ← fraction? s
  let (exponent, s) ← exponent? s
  return (.number (String.ofList (sign ++ whole ++ fraction ++ exponent)), s)

/-! ## Strings -/

/-- The character that an escape of one letter stands for. -/
def escaped? : Char → Option Char
  | '"' => some '"'
  | '\\' => some '\\'
  | '/' => some '/'
  | 'b' => some '\x08'
  | 'f' => some '\x0c'
  | 'n' => some '\n'
  | 'r' => some '\r'
  | 't' => some '\t'
  | _ => none

/-- A part of a string: a character, or a 16-bit unit given by its number. -/
inductive StringPart where
  | char (c : Char)
  | unit (n : Nat)
deriving DecidableEq, Repr

/-- The parts of a string after its opening quote, and the text after its closing one. -/
def parts? : List Char → Option (List StringPart × List Char)
  | [] => none
  | '"' :: rest => some ([], rest)
  | '\\' :: 'u' :: a :: b :: c :: d :: rest =>
    if [a, b, c, d].all fun h => (Text.digit? 16 h).isSome then do
      let n ← Text.digits? 16 [a, b, c, d]
      let (others, after) ← parts? rest
      return (.unit n :: others, after)
    else none
  | '\\' :: c :: rest => do
    let decoded ← escaped? c
    let (others, after) ← parts? rest
    return (.char decoded :: others, after)
  | c :: rest =>
    if c.toNat < 0x20 ∨ c = '\\' then none
    else do
      let (others, after) ← parts? rest
      return (.char c :: others, after)

/-- The text that parts stand for: two units make one character if they are the halves of a
surrogate pair, and half a pair stands for nothing. -/
def textOf? : List StringPart → Option (List Char)
  | [] => some []
  | .char c :: rest => (textOf? rest).map (c :: ·)
  | .unit high :: .unit low :: rest =>
    if 0xd800 ≤ high ∧ high < 0xdc00 then
      if 0xdc00 ≤ low ∧ low < 0xe000 then
        (textOf? rest).map
          (Char.ofNat (0x10000 + (high - 0xd800) * 0x400 + (low - 0xdc00)) :: ·)
      else none
    else if 0xdc00 ≤ high ∧ high < 0xe000 then none
    else (textOf? (.unit low :: rest)).map (Char.ofNat high :: ·)
  | .unit n :: rest =>
    if 0xd800 ≤ n ∧ n < 0xe000 then none else (textOf? rest).map (Char.ofNat n :: ·)

/-- A string after its opening quote, and the rest of the text. -/
def string? (s : List Char) : Option (Option String × List Char) :=
  (parts? s).map fun (parts, after) => ((textOf? parts).map String.ofList, after)

/-! ## Values -/

mutual

/-- A value at the beginning of a text, and the rest. -/
def value? : Nat → List Char → Option (JsonValue × List Char)
  | 0, _ => none
  | fuel + 1, s =>
    match s with
    | '"' :: rest => (string? rest).map fun (text, after) => (.string text, after)
    | '[' :: rest => do
      let (values, after) ←
        match skipBlanks rest with
        | ']' :: after => pure ([], after)
        | rest => items? fuel rest
      return (.array values, after)
    | '{' :: rest => do
      let (entries, after) ←
        match skipBlanks rest with
        | '}' :: after => pure ([], after)
        | rest => entries? fuel rest
      return (.object entries, after)
    | _ =>
      ((after? "null" s).map (.null, ·)).or <|
        ((after? "true" s).map (.bool true, ·)).or <|
          ((after? "false" s).map (.bool false, ·)).or <| number? s

/-- One item of an array or more, up to the closing bracket. -/
def items? : Nat → List Char → Option (List JsonValue × List Char)
  | 0, _ => none
  | fuel + 1, s => do
    let (first, after) ← value? fuel s
    match skipBlanks after with
    | ']' :: after => return ([first], after)
    | ',' :: rest =>
      let (others, after) ← items? fuel (skipBlanks rest)
      return (first :: others, after)
    | _ => none

/-- One member of an object or more, up to the closing brace. -/
def entries? : Nat → List Char → Option (List (Option String × JsonValue) × List Char)
  | 0, _ => none
  | fuel + 1, s =>
    match s with
    | '"' :: rest => do
      let (key, after) ← string? rest
      let atValue ← after? ":" (skipBlanks after)
      let (first, after) ← value? fuel (skipBlanks atValue)
      match skipBlanks after with
      | '}' :: after => return ([(key, first)], after)
      | ',' :: rest =>
        let (others, after) ← entries? fuel (skipBlanks rest)
        return ((key, first) :: others, after)
      | _ => none
    | _ => none

end

/-- The value that a text is. -/
def read? (text : String) : Option JsonValue :=
  let s := skipBlanks text.toList
  match value? (2 * s.length + 1) s with
  | some (value, after) => if (skipBlanks after).isEmpty then some value else none
  | none => none

end MarkupLoader.JsonValue
