import MarkupLoader.Load.State

/-!
# Registering names

An element with the directive `x:Name` registers its value under that name in its name scope. The
first one to take a name keeps it.

Main definition: `Load.registerNames`.
-/

namespace MarkupLoader

/-- What a node registers: a value under a name in a scope. The position is that of the
directive. -/
structure Naming where
  name : String
  position : Position
  value : Value
  scope : ScopeId

/-- What a node registers, if it has a name and a value to go with it. -/
def LoadState.naming? (s : LoadState) (id : NodeId) : Option Naming := do
  let a ← (s.node id).directive? "Name"
  let name ← a.value.text?
  let value ← s.context.value? id
  let scope ← s.context.nodeScope? id
  return ⟨name, a.position, value, scope⟩

namespace Load

/-- Registers the name of a node, if it has one and a value to go with it. -/
def registerName (id : NodeId) : Load Unit := do
  let s ← get
  match s.naming? id with
  | none => return ()
  | some n =>
    match s.context.register n.scope n.name n.value with
    | some context => set { s with context := context }
    | none => recover (.duplicateName n.name n.position)

/-- Registers the names of all nodes outside templates. -/
def registerNames (env : Environment) : Load Unit := do
  let s ← get
  (s.loaded env).forM registerName

end Load

end MarkupLoader
