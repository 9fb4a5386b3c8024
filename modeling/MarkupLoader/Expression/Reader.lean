import MarkupLoader.Name
import MarkupLoader.Expression.Basic
import MarkupLoader.Text.Blank
import MarkupLoader.Text.Letter

/-!
# Reading markup-extension expressions

The value of an attribute is a plain text, an escaped text (after an opening pair of braces), or
an expression in braces: a name, then arguments separated by commas. An argument may have a key
before an equals sign, and its value is a bare text up to the next comma, brace or equals sign, a
quoted text, or a nested expression.

* **What an argument begins with** (`readLead`) is decided without recursion; only the arguments
  of an expression (`readArgs`) recurse.
* Every step consumes a character, so the length of the text bounds the recursion, and running
  out of it means the text has ended.

Main definitions: `AttributeText.read`, `readExpression`.
-/

namespace MarkupLoader

open Text

/-! ## Faults -/

/-- Why a text in braces is no expression. -/
inductive ExpressionFault where
  | missingName
  | unterminated
  | positionalAfterNamed
  | trailingComma
  /-- Neither a comma nor a closing brace follows an argument; `none` at the end of the text. -/
  | missingSeparator (found : Option Char)
  | missingKey
  | unterminatedQuote
  /-- Something follows the expression, after that many characters. -/
  | trailingText (offset : Nat)
deriving DecidableEq, Repr

namespace ExpressionFault

/-- The wording of a fault. The end of the text is written as the character NUL. -/
def message : ExpressionFault → String
  | missingName => "Missing markup extension name"
  | unterminated => "Unterminated markup extension"
  | positionalAfterNamed => "Positional argument after named argument"
  | trailingComma => "Trailing ',' in markup extension"
  | missingSeparator found =>
    "Expected ',' or '\x7d', got '" ++ String.singleton (found.getD '\x00') ++ "'"
  | missingKey => "Missing argument name before '='"
  | unterminatedQuote => "Unterminated quoted value"
  | trailingText offset => s!"Unexpected text after markup extension at {offset}"

end ExpressionFault

/-! ## Leaves -/

/-- Whether a bare text ends before the character. -/
def endsBareText (c : Char) : Bool := c == ',' || c == '}' || c == '='

/-- Reads a bare text, without the blanks around it. -/
def readBare (s : List Char) : String × List Char :=
  (String.ofList (trim (s.takeWhile (!endsBareText ·))), s.dropWhile (!endsBareText ·))

/-- Reads a quoted text after its opening quote: a backslash stands for the character after it. -/
def readQuoted : List Char → Except ExpressionFault (List Char × List Char)
  | [] => .error .unterminatedQuote
  | '\'' :: rest => .ok ([], rest)
  | '\\' :: c :: rest => (readQuoted rest).map fun (value, after) => (c :: value, after)
  | c :: rest => (readQuoted rest).map fun (value, after) => (c :: value, after)

/-! ## Arguments -/

/-- What an argument begins with. -/
inductive Lead where
  | text (key : Option String) (value : String)
  /-- A nested expression, whose opening brace comes next. -/
  | nested (key : Option String)
deriving DecidableEq, Repr

namespace Lead

/-- The key of the argument, if it is named. -/
def key : Lead → Option String
  | text key _ => key
  | nested key => key

end Lead

/-- Reads the value of an argument whose key is known, up to where a nested expression begins. -/
def readValue (key : Option String) (s : List Char) :
    Except ExpressionFault (Lead × List Char) :=
  match s with
  | '{' :: _ => .ok (.nested key, s)
  | '\'' :: rest =>
    (readQuoted rest).map fun (value, after) => (.text key (String.ofList value), after)
  | _ =>
    let (value, after) := readBare s
    .ok (.text key value, after)

/-- Reads an argument up to where a nested expression begins. Only a bare text can turn out to be
a key. -/
def readLead (s : List Char) : Except ExpressionFault (Lead × List Char) :=
  match s with
  | '{' :: _ => readValue none s
  | '\'' :: _ => readValue none s
  | _ =>
    let (token, after) := readBare s
    match trimStart after with
    | '=' :: rest =>
      -- The bare text was a key, and what follows the sign is the value.
      if token.isEmpty then .error .missingKey else readValue (some token) (trimStart rest)
    | rest => .ok (.text none token, rest)

/-- Refuses a positional argument once there has been a named one. -/
def checkOrder (named : Bool) (lead : Lead) : Except ExpressionFault Unit :=
  if named && lead.key.isNone then .error .positionalAfterNamed else .ok ()

/-- Reads what stands between an argument and the next one or the closing brace, which is left
in place. -/
def readSeparator (s : List Char) : Except ExpressionFault (List Char) :=
  match trimStart s with
  | ',' :: rest =>
    match trimStart rest with
    | '}' :: _ => .error .trailingComma
    | next => .ok next
  | '}' :: rest => .ok ('}' :: rest)
  | c :: _ => .error (.missingSeparator (some c))
  | [] => .error (.missingSeparator none)

/-- Reads the opening brace and the name of an expression and the blanks after it. -/
def readHead (s : List Char) : Except ExpressionFault (ExpressionHead × List Char) :=
  let s := trimStart (s.drop 1)
  let written := String.ofList (s.takeWhile isIdentifierChar)
  if written.isEmpty then .error .missingName
  else
    let (qualifier, name) := splitQualified written
    .ok (⟨qualifier, name, "", ""⟩, trimStart (s.dropWhile isIdentifierChar))

/-- The head with the text between two places of the input as its source. -/
def ExpressionHead.withSource (head : ExpressionHead) (start after : List Char) :
    ExpressionHead :=
  { head with source := String.ofList (start.take (start.length - after.length)) }

/-- Reads arguments up to and including the closing brace. `named` tells whether one of the
arguments before was named. -/
def readArgs : Nat → Bool → List Char → Except ExpressionFault (Args × List Char)
  | 0, _, _ => .error .unterminated
  | fuel + 1, named, s =>
    match s with
    | [] => .error .unterminated
    | '}' :: rest => .ok (.nil, rest)
    | _ => do
      let (lead, after) ← readLead s
      match lead with
      | .text key value =>
        checkOrder named lead
        let (others, rest) ← readArgs fuel key.isSome (← readSeparator after)
        return (.text key value others, rest)
      | .nested key =>
        let (head, inside) ← readHead after
        -- The inner expression is read to its end before the argument's place is judged.
        let (inner, closed) ← readArgs fuel false inside
        checkOrder named lead
        let (others, rest) ← readArgs fuel key.isSome (← readSeparator closed)
        return (.nested key (head.withSource after closed) inner others, rest)

/-! ## Expressions -/

/-- Reads a whole text that begins with an opening brace; only blanks may follow the
expression. -/
def readExpression (s : List Char) : Except ExpressionFault Expression := do
  let (head, inside) ← readHead s
  let (args, closed) ← readArgs inside.length false inside
  let rest := trimStart closed
  if rest.isEmpty then return ⟨head.withSource s closed, args⟩
  else throw (.trailingText (s.length - rest.length))

/-- The value of an attribute. -/
inductive AttributeText where
  | plain (text : String)
  /-- The text after an opening pair of braces. -/
  | escaped (text : String)
  | expression (expression : Expression)
deriving DecidableEq, Repr

namespace AttributeText

/-- Reads the value of an attribute. What counts is the first character that is not blank. -/
def read (text : String) : Except ExpressionFault AttributeText :=
  match trimStart text.toList with
  | '{' :: '}' :: rest => .ok (.escaped (String.ofList rest))
  | '{' :: rest => (readExpression ('{' :: rest)).map .expression
  | _ => .ok (.plain text)

end AttributeText

end MarkupLoader
