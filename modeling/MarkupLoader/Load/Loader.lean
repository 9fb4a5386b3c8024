import MarkupLoader.Document.Reader
import MarkupLoader.Load.Passes

/-!
# Loading

There are three ways to load markup, and all give **a report**: the object that the load was
about, the names that were registered, the failures that were passed over, and the passes that
were completed.

* **Creating** (`create`) makes a new object of the outermost element's type.
* **Loading into** (`loadInto`) works on an object that is there already.
* **Instantiating** (`instantiate`) makes new objects from the content of a template, which sees
  the objects that were around the template and are still alive.

The heap that a load leaves is part of its outcome, also when it fails. **Each way has its run**
(`runCreate`, `runInto`, `runTemplate`), which keeps the whole state at the end of the load: the
failures passed over before the load was given up, and the passes completed by then.
-/

namespace MarkupLoader

/-- What a load gives. -/
structure Report where
  root : ObjectId
  /-- The names registered in the scope of the outermost element. -/
  names : Table String Value
  diagnostics : List LoadError
  passes : List Pass
deriving Inhabited

namespace Report

/-- The value registered under a name. -/
def named? (r : Report) (name : String) : Option Value := r.names.get? name

/-- The object registered under a name. -/
def object? (r : Report) (name : String) : Option ObjectId := (r.named? name).bind Value.object?

end Report

/-- The result of a load with the heap that it leaves. -/
structure Outcome where
  result : Except LoadError Report
  heap : Heap

namespace LoadState

/-- The state before a load of a tree. -/
def initial (tree : NodeTree) (rootInstance : Option ObjectId) (context : Context)
    (heap : Heap) : LoadState :=
  ⟨tree, rootInstance, context, heap⟩

/-- The names registered in the first scope. -/
def names (s : LoadState) : Table String Value :=
  match s.context.rootScope? with
  | some scope => (s.context.scope scope).names
  | none => .empty

/-- The report of a load whose passes have all been completed. -/
def report (s : LoadState) : Except LoadError Report :=
  match s.context.rootElement with
  | some root => .ok ⟨root, s.names, s.context.diagnostics, s.context.passes⟩
  | none => .error (.internal "pipeline finished without a root element")

end LoadState

/-- The end of a load: how it went, and the state that it leaves. -/
structure Run where
  ended : Except LoadError Unit
  state : LoadState

namespace Run

/-- Runs a step from a state. -/
def ofStep (step : Load Unit) (s : LoadState) : Run :=
  let (ended, state) := step.start s
  ⟨ended, state⟩

/-- The result of a run, with the heap that it leaves. -/
def outcome (r : Run) : Outcome :=
  match r.ended with
  | .ok () => ⟨r.state.report, r.state.heap⟩
  | .error error => ⟨.error error, r.state.heap⟩

end Run

/-- A loader: what its loads may use, and whether they tolerate failures. -/
structure Loader where
  environment : Environment
  tolerant : Bool

namespace Loader

/-- Makes the object of the outermost element, then runs all passes. -/
def createThenRun (env : Environment) : Load Unit := do
  Load.createRoot env
  Load.runPasses env

/-- The run that makes a new object from a tree. -/
def runCreate (l : Loader) (h : Heap) (tree : NodeTree) (tolerant : Bool) : Run :=
  .ofStep (createThenRun l.environment)
    (.initial tree none (.start none tolerant []) h)

/-- The run that loads a tree into an object. -/
def runInto (l : Loader) (h : Heap) (target : ObjectId) (tree : NodeTree) : Run :=
  .ofStep (Load.runPasses l.environment)
    (.initial tree (some target) (.start (some target) l.tolerant []) h)

/-- The run that makes new objects from the content of a template. Of the objects around the
template it sees those that are still alive. -/
def runTemplate (l : Loader) (h : Heap) (content : Template) : Run :=
  .ofStep (createThenRun l.environment)
    (.initial content.tree none
      (.start none l.tolerant (content.outerScope.filter fun id => !h.dead.contains id)) h)

/-- Makes a new object from markup. -/
def create (l : Loader) (h : Heap) (markup : String) (tolerant : Bool) : Outcome :=
  match NodeTree.read markup with
  | .error fault => ⟨.error (.ofFault fault), h⟩
  | .ok tree => (l.runCreate h tree tolerant).outcome

/-- Loads markup into an object. -/
def loadInto (l : Loader) (h : Heap) (target : ObjectId) (markup : String) : Outcome :=
  match NodeTree.read markup with
  | .error fault => ⟨.error (.ofFault fault), h⟩
  | .ok tree => (l.runInto h target tree).outcome

/-- Makes new objects from the content of a template. -/
def instantiate (l : Loader) (h : Heap) (template : ObjectId) : Outcome :=
  match (h.object template).template with
  | some content => (l.runTemplate h content).outcome
  | none =>
    ⟨.error (.coercion (h.object template).typeName "object has no template content" .nowhere), h⟩

end Loader

/-- Makes an object of a registered type, with nothing in it. -/
def Registry.create (r : Registry) (h : Heap) (name : QName) : Except LoadError (ObjectId × Heap) :=
  match r.get? name with
  | some d => .ok (h.alloc (.ofType d))
  | none => .error (.unresolvedType name .nowhere)

end MarkupLoader
