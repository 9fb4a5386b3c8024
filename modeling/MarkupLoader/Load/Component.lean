import MarkupLoader.Bundle.Resolver
import MarkupLoader.Load.Loader

/-!
# Loading components

A component is loaded in two steps: an object is made of the type that the markup of the component
begins with, and the markup is loaded into it.

Both steps look for the markup, so both may add to the cache of the resolver.
-/

namespace MarkupLoader.Loader

/-- Makes an object of the type of a document's outermost element. -/
def createFor (l : Loader) (h : Heap) (markup : String) : Except LoadError (ObjectId × Heap) :=
  match NodeTree.read markup with
  | .error fault => .error (.ofFault fault)
  | .ok tree => l.environment.registry.create h (tree.node NodeTree.root).typeName

/-- Makes the object of a component. -/
def createComponent (l : Loader) (r : Resolver) (cache : ResourceCache) (h : Heap)
    (c : Component) : Except LoadError (ObjectId × Heap) × ResourceCache :=
  let (markup, cache) := r.resolveMarkup cache c
  (markup.bind (l.createFor h), cache)

/-- Loads the markup of a component into an object. -/
def loadComponent (l : Loader) (r : Resolver) (cache : ResourceCache) (h : Heap)
    (target : ObjectId) (c : Component) : Outcome × ResourceCache :=
  match r.resolveMarkup cache c with
  | (.ok markup, cache) => (l.loadInto h target markup, cache)
  | (.error error, cache) => (⟨.error error, h⟩, cache)

end MarkupLoader.Loader
