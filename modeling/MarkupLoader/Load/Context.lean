import MarkupLoader.Error
import MarkupLoader.Heap.Basic

/-!
# The context of a load

What the passes of one load tell each other, apart from the tree and the heap.

* **Values** of nodes are set once.
* **Name scopes** form a tree: a name is looked up in a scope and then outwards, and is
  registered once in a scope. A scope's parent is always an earlier scope, so the number of
  scopes bounds a look-up.
* **Failures** go through `Context.recover`: a load that tolerates failures records those that
  are not fatal and goes on.

Main statements: `recover_strict`, `value?_setValue`, `register_of_contains`.
-/

namespace MarkupLoader

/-- The passes of a load, in the order they run. -/
inductive Pass where
  | parentLinking
  | markupExpansion
  | pruneIgnored
  | namescoping
  | valueCreation
  | nameRegistration
  | resourceDictionaryFill
  | propertyApplication
deriving DecidableEq, Repr

/-- All passes in order. -/
def Pass.all : List Pass :=
  [.parentLinking, .markupExpansion, .pruneIgnored, .namescoping, .valueCreation,
    .nameRegistration, .resourceDictionaryFill, .propertyApplication]

/-- The name of a pass. -/
def Pass.name : Pass → String
  | parentLinking => "ParentLinking"
  | markupExpansion => "MarkupExpansion"
  | pruneIgnored => "PruneIgnored"
  | namescoping => "Namescoping"
  | valueCreation => "ValueCreation"
  | nameRegistration => "NameRegistration"
  | resourceDictionaryFill => "ResourceDictionaryFill"
  | propertyApplication => "PropertyApplication"

/-- The place of a name scope in its context. -/
abbrev ScopeId := Nat

/-- A scope of names. -/
structure NameScope where
  parent : Option ScopeId
  names : Table String Value
deriving Inhabited

/-- The context of one load. -/
structure Context where
  /-- The object that the load is about. -/
  rootElement : Option ObjectId
  /-- Whether failures that are not fatal are recorded and passed over. -/
  tolerant : Bool
  values : Table NodeId Value
  scopes : Array NameScope
  nodeScopes : Table NodeId ScopeId
  /-- The objects around the document, nearest first. -/
  outerScope : List ObjectId
  diagnostics : List LoadError
  /-- The passes that have been completed. -/
  passes : List Pass
deriving Inhabited

namespace Context

/-- The context at the beginning of a load. -/
def start (rootElement : Option ObjectId) (tolerant : Bool) (outerScope : List ObjectId) :
    Context :=
  ⟨rootElement, tolerant, .empty, #[], .empty, outerScope, [], []⟩

/-! ## Values -/

/-- The value of a node. -/
def value? (c : Context) (id : NodeId) : Option Value := c.values.get? id

/-- The object of a node. -/
def object? (c : Context) (id : NodeId) : Option ObjectId := (c.value? id).bind Value.object?

/-- Sets the value of a node, which must not have one. -/
def setValue (c : Context) (id : NodeId) (value : Value) : Except LoadError Context :=
  if c.values.contains id then .error (.internal s!"value for node #{id} created twice")
  else .ok { c with values := c.values.insert id value }

/-! ## Name scopes -/

/-- The scope at a place. -/
def scope (c : Context) (id : ScopeId) : NameScope := c.scopes[id]?.getD default

/-- Another scope inside a given one; its place comes first. -/
def newScope (c : Context) (parent : Option ScopeId) : ScopeId × Context :=
  (c.scopes.size, { c with scopes := c.scopes.push ⟨parent, .empty⟩ })

/-- The first scope of the load. -/
def rootScope? (c : Context) : Option ScopeId := if c.scopes.isEmpty then none else some 0

/-- The scope of a node. -/
def nodeScope? (c : Context) (id : NodeId) : Option ScopeId := c.nodeScopes.get? id

/-- Sets the scope of a node. -/
def setNodeScope (c : Context) (id : NodeId) (scope : ScopeId) : Context :=
  { c with nodeScopes := c.nodeScopes.insert id scope }

/-- Registers a name in a scope; `none` if the scope has it already. -/
def register (c : Context) (scope : ScopeId) (name : String) (value : Value) : Option Context :=
  if (c.scope scope).names.contains name then none
  else some { c with
    scopes := c.scopes.modify scope fun s => { s with names := s.names.insert name value } }

/-- Looks up a name in a scope and then outwards, in at most `fuel` scopes. -/
def findNameFrom (c : Context) (name : String) : Nat → ScopeId → Option Value
  | 0, _ => none
  | fuel + 1, scope =>
    match (c.scope scope).names.get? name with
    | some value => some value
    | none => (c.scope scope).parent.bind (c.findNameFrom name fuel)

/-- Looks up a name in a scope and then outwards. -/
def findName (c : Context) (scope : ScopeId) (name : String) : Option Value :=
  c.findNameFrom name c.scopes.size scope

/-! ## Failures and progress -/

/-- Passes over a failure, if the load tolerates it. -/
def recover (c : Context) (error : LoadError) : Except LoadError Context :=
  if c.tolerant && !error.isFatal then .ok { c with diagnostics := c.diagnostics ++ [error] }
  else .error error

/-- Notes that a pass has been completed. -/
def completed (c : Context) (pass : Pass) : Context := { c with passes := c.passes ++ [pass] }

/-! ## Laws -/

/-- A strict load passes over nothing. -/
theorem recover_strict {c : Context} (error : LoadError) (h : c.tolerant = false) :
    c.recover error = .error error := by
  simp [recover, h]

/-- A value that has been set is found. -/
theorem value?_setValue {c after : Context} {id : NodeId} {value : Value}
    (h : c.setValue id value = .ok after) : after.value? id = some value := by
  unfold setValue at h
  split at h
  · cases h
  · cases h
    simp [value?]

/-- Registering changes the scopes only. -/
theorem eq_of_register {c after : Context} {scope : ScopeId} {name : String} {value : Value}
    (h : c.register scope name value = some after) :
    after = { c with scopes :=
      c.scopes.modify scope fun s => { s with names := s.names.insert name value } } := by
  unfold register at h
  split at h
  · cases h
  · exact (Option.some.inj h).symm

/-- A name that a scope has after registering has been registered or was there. -/
theorem get?_names_register {c after : Context} {scope other : ScopeId} {name key : String}
    {value found : Value} (h : c.register scope name value = some after)
    (held : (after.scope other).names.get? key = some found) :
    found = value ∨ (c.scope other).names.get? key = some found := by
  obtain rfl := eq_of_register h
  simp only [Context.scope, Array.getElem?_modify] at held
  split at held
  · rcases there : c.scopes[other]? with _ | old
    · rw [there] at held
      cases held
    · rw [there] at held
      rcases Table.get?_insert held with ⟨-, rfl⟩ | before
      · exact .inl rfl
      · exact .inr (by simpa [Context.scope, there] using before)
  · exact .inr held

/-- In the first scope, if it is outermost, a name is looked up there and nowhere else. -/
theorem findName_outermost {c : Context} (opened : 0 < c.scopes.size)
    (outermost : (c.scope 0).parent = none) (name : String) :
    c.findName 0 name = (c.scope 0).names.get? name := by
  cases size : c.scopes.size with
  | zero => omega
  | succ others =>
    rw [findName, size, findNameFrom, outermost]
    cases (c.scope 0).names.get? name <;> rfl

/-- A name is not registered twice in a scope. -/
theorem register_of_contains {c : Context} {scope : ScopeId} {name : String} (value : Value)
    (h : (c.scope scope).names.contains name = true) : c.register scope name value = none := by
  simp [register, h]

end Context

end MarkupLoader
