/-!
# Markup-extension expressions

An expression calls a markup extension by name with positional and named arguments. An argument
is a text or another expression.

* **Arguments** (`Args`) are one sequence in written order. The arguments of a nested expression
  stand inside it, so the whole tree of an expression is a single inductive type. An argument
  with a key is named, one without is positional.
* **The head** of an expression is everything but its arguments: its written name, the namespace
  that its prefix stands for, and the text it was read from.
-/

namespace MarkupLoader

/-- An expression without its arguments. -/
structure ExpressionHead where
  /-- What the written name has before its first colon. -/
  qualifier : Option String
  name : String
  /-- The namespace that the qualifier stands for; empty until it has been looked up. -/
  namespaceUri : String
  /-- The text of the whole expression. -/
  source : String
deriving DecidableEq, Repr, Inhabited

/-- The arguments of an expression, in written order. -/
inductive Args where
  | nil
  /-- A text argument, then the others. -/
  | text (key : Option String) (value : String) (others : Args)
  /-- A nested expression with arguments of its own, then the others. -/
  | nested (key : Option String) (head : ExpressionHead) (inner others : Args)
deriving DecidableEq, Repr, Inhabited

/-- A markup extension with its arguments. -/
structure Expression where
  head : ExpressionHead
  args : Args
deriving DecidableEq, Repr, Inhabited

/-! ## Namespaces

Every qualifier of an expression, at every depth, is looked up where the expression is written.
-/

/-- The key under which the namespace of a qualifier is declared; names without a qualifier take
the default namespace. -/
def ExpressionHead.prefixKey (h : ExpressionHead) : String := h.qualifier.getD ""

namespace Args

/-- Looks up the namespaces of the nested expressions, in written order and each before the ones
inside it. An undeclared prefix ends the work and is returned beside what was done until then. -/
def lookUp (declared : String → Option String) : Args → Args × Option String
  | nil => (nil, none)
  | text key value others =>
    let (others, missing) := others.lookUp declared
    (text key value others, missing)
  | nested key head inner others =>
    match declared head.prefixKey with
    | none => (nested key head inner others, some head.prefixKey)
    | some uri =>
      let head := { head with namespaceUri := uri }
      match inner.lookUp declared with
      | (inner, some missing) => (nested key head inner others, some missing)
      | (inner, none) =>
        let (others, missing) := others.lookUp declared
        (nested key head inner others, missing)

end Args

namespace Expression

/-- Looks up the namespaces of the expression and of all expressions inside it. An undeclared
prefix ends the work and is returned beside what was done until then. -/
def lookUp (declared : String → Option String) (e : Expression) : Expression × Option String :=
  match declared e.head.prefixKey with
  | none => (e, some e.head.prefixKey)
  | some uri =>
    let (args, missing) := e.args.lookUp declared
    (⟨{ e.head with namespaceUri := uri }, args⟩, missing)

end Expression

/-- The wording of an undeclared prefix. -/
def undeclaredPrefix (missing : String) : String := s!"Undeclared xmlns prefix '{missing}'"

end MarkupLoader
