import MarkupLoader.Document.Fault
import MarkupLoader.Name

/-!
# Errors of a load

Every failure of a load is one of eight kinds, each with the texts that describe it and, where it
concerns a place in a document, a position. **Fatal errors** end a load even when it tolerates
failures: without a document or a result there is nothing to go on with.
-/

namespace MarkupLoader

/-- Why a load, or a part of it, failed. -/
inductive LoadError where
  /-- No document describes a component. -/
  | documentNotFound (component : String)
  /-- A text is no document. -/
  | parse (reason : String) (position : Position)
  /-- A name stands for no registered type. -/
  | unresolvedType (name : QName) (position : Position)
  /-- A name is given to two objects. -/
  | duplicateName (name : String) (position : Position)
  /-- A value does not fit where it is assigned. -/
  | coercion (property reason : String) (position : Position)
  /-- A markup extension is malformed or gives no value. -/
  | expression (source reason : String) (position : Position)
  /-- A configuration is malformed or contradicts itself. -/
  | config (reason : String)
  /-- A load broke its own rules. -/
  | internal (reason : String)
deriving DecidableEq, Repr

namespace LoadError

/-- The wording of an error. -/
def message : LoadError → String
  | documentNotFound component => s!"No embedded resources found for {component}"
  | parse reason position => s!"Parse error: {reason} ({position.text})"
  | unresolvedType name position =>
    s!"Type {name.localName} not found in xmlns {name.namespaceUri} ({position.text})"
  | duplicateName name position =>
    s!"An element with the name \"{name}\" already exists in this NameScope ({position.text})"
  | coercion property reason position =>
    s!"Cannot assign property \"{property}\": {reason} ({position.text})"
  | expression source reason position =>
    s!"Cannot evaluate \"{source}\": {reason} ({position.text})"
  | config reason => s!"Configuration error: {reason}"
  | internal reason => s!"Internal error: {reason}"

/-- Whether an error ends a load that tolerates failures. -/
def isFatal : LoadError → Bool
  | documentNotFound _ => true
  | parse _ _ => true
  | internal _ => true
  | _ => false

/-- The error of a text that is no document. -/
def ofFault (f : FaultAt) : LoadError := parse f.fault.message f.position

end LoadError

end MarkupLoader
