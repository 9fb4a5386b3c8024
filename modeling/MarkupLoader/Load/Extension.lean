import MarkupLoader.Load.Context
import MarkupLoader.Schema.Registry

/-!
# Markup extensions

A markup extension gives a value for the place where an expression stands. **The site** of an
expression is its node with the nodes above it, the context and the heap of the load, and the
registry of types. An extension does not see all of it: **the services** of the site are what it
may ask for, and how a load treats its failures is not among them.

* **Checking** (`Extensions.check`) asks only whether all extensions that an expression names are
  registered.
* **Evaluating** (`Extensions.evaluate`) goes from left to right; the arguments of an extension
  are evaluated before the extension is asked, but after it has been looked up.
* A name is also looked up **without the ending** `Extension`.

The built-in extensions are `StaticResource`, `Reference`, `Null` and `Type`.
-/

namespace MarkupLoader

/-! ## Sites -/

/-- The place where an expression is evaluated. -/
structure Site where
  heap : Heap
  tree : NodeTree
  context : Context
  registry : Registry
  node : NodeId

namespace Site

/-- The resource that is nearest to the site: that of the first object at or above the node that
has the key, and otherwise of the objects around the document. -/
def resource? (s : Site) (key : String) : Option Value :=
  let objects := (s.tree.selfAndAncestors s.node).filterMap s.context.object?
  (objects ++ s.context.outerScope).findSome? fun object => s.heap.resource? object key

/-- The name scope of the site: that of the first node at or above it that has one. -/
def scope? (s : Site) : Option ScopeId :=
  (s.tree.selfAndAncestors s.node).findSome? s.context.nodeScope?

/-- The value registered under a name in the scope of the site or around it. -/
def named? (s : Site) (name : String) : Option Value :=
  s.scope?.bind fun scope => s.context.findName scope name

/-- The type name that a written name stands for at the site. -/
def typeName? (s : Site) (written : String) : Option QName :=
  let (qualifier, localName) := splitQualified written
  (s.tree.lookUpNamespace s.node (qualifier.getD "")).map fun uri => ⟨uri, localName⟩

end Site

/-- What a markup extension may ask for at the place where its expression stands. -/
structure Services where
  heap : Heap
  registry : Registry
  node : NodeId
  /-- The resource that is nearest to the place. -/
  resource? : String → Option Value
  /-- The value registered under a name in the scope of the place or around it. -/
  named? : String → Option Value
  /-- The type name that a written name stands for at the place. -/
  typeName? : String → Option QName

/-- The services of a site. -/
def Site.services (s : Site) : Services :=
  ⟨s.heap, s.registry, s.node, s.resource?, s.named?, s.typeName?⟩

/-! ## Arguments -/

/-- The evaluated arguments of an expression. -/
structure Arguments where
  positional : List Value
  named : List (String × Value)
deriving Inhabited

namespace Arguments

/-- One more argument in front of the others. -/
def cons (key : Option String) (value : Value) (others : Arguments) : Arguments :=
  match key with
  | none => { others with positional := value :: others.positional }
  | some key => { others with named := (key, value) :: others.named }

/-- The argument of a name, or else the one at a position. -/
def get? (a : Arguments) (name : String) (position : Nat) : Option Value :=
  (a.named.lookup name).or a.positional[position]?

/-- The argument of a name, or else the one at a position, which has to be a text. -/
def text (a : Arguments) (heap : Heap) (name : String) (position : Nat) :
    Except String String :=
  match a.get? name position with
  | some (.string s) => .ok s
  | some other => .error (s!"{name} must be text, got " ++ heap.kindName other)
  | none => .error s!"missing {name}"

end Arguments

/-! ## Extensions -/

/-- A markup extension: the value that it gives for some arguments at a place, or the reason why
it gives none. -/
abbrev Extension := Arguments → Services → Except String Value

/-- The extensions that are known, under their canonical names. -/
structure Extensions where
  known : Table QName Extension
deriving Inhabited

/-- Why an expression has no value. -/
inductive EvaluationFault where
  | unknownExtension (name : String)
  /-- An extension gave no value. -/
  | failed (reason : String)
deriving DecidableEq, Repr

/-- The wording of a fault. -/
def EvaluationFault.message : EvaluationFault → String
  | unknownExtension name => s!"Markup extension {name} not found"
  | failed reason => reason

/-- The wording of a name that is no known extension's. -/
def unknownExtension (name : QName) : String :=
  s!"Markup extension {name.localName} not found in xmlns {name.namespaceUri}"

/-- The name of the extension that an expression calls. -/
def ExpressionHead.extensionName (h : ExpressionHead) : QName := ⟨h.namespaceUri, h.name⟩

namespace Extensions

/-- No extensions. -/
def empty : Extensions := ⟨.empty⟩

/-- The extensions with one more, which replaces one of the same name. -/
def register (e : Extensions) (name : QName) (extension : Extension) : Extensions :=
  ⟨e.known.insert name.canonical extension⟩

/-- The extension of a name, or of the name without the ending `Extension`. -/
def get? (e : Extensions) (name : QName) : Option Extension :=
  (e.known.get? name.canonical).or <|
    (Text.before? "Extension" name.localName).bind fun short =>
      e.known.get? (QName.mk name.namespaceUri short).canonical

/-- Whether the extension that a name stands for is known. -/
def checkName (e : Extensions) (name : QName) : Except QName Unit :=
  if (e.get? name).isSome then .ok () else .error name

/-- Checks that the extensions of all nested expressions are known, an outer one first; the
first name that is not known is given back. -/
def checkArgs (e : Extensions) : Args → Except QName Unit
  | .nil => .ok ()
  | .text _ _ others => e.checkArgs others
  | .nested _ head inner others => do
    e.checkName head.extensionName
    e.checkArgs inner
    e.checkArgs others

/-- Checks that all extensions of an expression are known. -/
def check (e : Extensions) (x : Expression) : Except QName Unit := do
  e.checkName x.head.extensionName
  e.checkArgs x.args

/-- The extension that an expression calls. -/
def lookUp (e : Extensions) (head : ExpressionHead) : Except EvaluationFault Extension :=
  match e.get? head.extensionName with
  | some extension => .ok extension
  | none => .error (.unknownExtension head.name)

/-- Asks an extension for its value. -/
def ask (extension : Extension) (arguments : Arguments) (services : Services) :
    Except EvaluationFault Value :=
  (extension arguments services).mapError .failed

/-- Evaluates arguments. -/
def evaluateArgs (e : Extensions) (services : Services) :
    Args → Except EvaluationFault Arguments
  | .nil => .ok ⟨[], []⟩
  | .text key value others => do
    let others ← e.evaluateArgs services others
    return .cons key (.string value) others
  | .nested key head inner others => do
    let extension ← e.lookUp head
    let arguments ← e.evaluateArgs services inner
    let value ← ask extension arguments services
    let others ← e.evaluateArgs services others
    return .cons key value others

/-- Evaluates an expression at a site. -/
def evaluate (e : Extensions) (site : Site) (x : Expression) : Except EvaluationFault Value := do
  let extension ← e.lookUp x.head
  let arguments ← e.evaluateArgs site.services x.args
  ask extension arguments site.services

/-! ## Built-in extensions -/

/-- The resource that is nearest to the place. -/
def staticResource : Extension := fun arguments services => do
  let key ← arguments.text services.heap "Key" 0
  match services.resource? key with
  | some value => return value
  | none => throw s!"StaticResource not found for key {key}"

/-- The object registered under a name. -/
def reference : Extension := fun arguments services => do
  let name ← arguments.text services.heap "Name" 0
  match services.named? name with
  | some value => return value
  | none => throw s!"Can not find the object referenced by `{name}`"

/-- Null. -/
def null : Extension := fun _ _ => .ok .null

/-- A registered type. -/
def typeReference : Extension := fun arguments services => do
  let written ← arguments.text services.heap "TypeName" 0
  match services.typeName? written with
  | none => throw s!"Undeclared xmlns prefix in {written}"
  | some name =>
    if (services.registry.get? name).isSome then return .type name
    else throw s!"Can not find the type {written}"

/-- The extensions that every load may use. -/
def builtIn : Extensions :=
  empty
    |>.register ⟨formsNamespace, "StaticResource"⟩ staticResource
    |>.register ⟨language2009, "Reference"⟩ reference
    |>.register ⟨language2009, "Null"⟩ null
    |>.register ⟨language2009, "Type"⟩ typeReference

/-! ## Laws -/

/-- An extension that is found is known under some name. -/
theorem exists_known_of_get? {e : Extensions} {name : QName} {extension : Extension}
    (found : e.get? name = some extension) : ∃ key, e.known.get? key = some extension := by
  unfold get? at found
  cases direct : e.known.get? name.canonical with
  | none =>
    rw [direct, Option.none_or] at found
    obtain ⟨short, -, found⟩ := Option.bind_eq_some_iff.1 found
    exact ⟨_, found⟩
  | some other =>
    rw [direct, Option.some_or] at found
    exact ⟨_, direct.trans found⟩

theorem eq_of_known_builtIn {name : QName} {extension : Extension}
    (known : builtIn.known.get? name = some extension) :
    extension = staticResource ∨ extension = reference ∨ extension = null ∨
      extension = typeReference := by
  unfold builtIn register at known
  rcases Table.get?_insert known with ⟨-, rfl⟩ | known
  · exact .inr (.inr (.inr rfl))
  rcases Table.get?_insert known with ⟨-, rfl⟩ | known
  · exact .inr (.inr (.inl rfl))
  rcases Table.get?_insert known with ⟨-, rfl⟩ | known
  · exact .inr (.inl rfl)
  rcases Table.get?_insert known with ⟨-, rfl⟩ | known
  · exact .inl rfl
  cases known

end Extensions

end MarkupLoader
