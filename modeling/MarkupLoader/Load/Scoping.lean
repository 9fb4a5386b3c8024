import MarkupLoader.Load.State

/-!
# Name scopes of nodes

Every node gets a name scope. The outermost element opens one, and so does the content of every
template, inside the scope of the template itself; all other nodes share the scope of the node
above them.

Main definition: `Load.assignScopes`.
-/

namespace MarkupLoader.Load

/-- The scope for the content of a template, opened when it is first needed; `opened` holds those
that are open already. -/
def contentScope (opened : Table NodeId ScopeId) (template : NodeId) (around : ScopeId) :
    Load (ScopeId × Table NodeId ScopeId) := do
  match opened.get? template with
  | some scope => return (scope, opened)
  | none =>
    let s ← get
    let (scope, context) := s.context.newScope (some around)
    set { s with context := context }
    return (scope, opened.insert template scope)

/-- Gives a node its scope. -/
def assignScope (env : Environment) (rootScope : ScopeId) (opened : Table NodeId ScopeId)
    (id : NodeId) : Load (Table NodeId ScopeId) := do
  let s ← get
  match (s.node id).parent with
  | none => return opened
  | some parent =>
    let around := (s.context.nodeScope? parent).getD rootScope
    let (scope, opened) ←
      if s.isTemplate env parent then contentScope opened parent around
      else pure (around, opened)
    modifyContext (·.setNodeScope id scope)
    return opened

/-- Opens the scope of the outermost element and gives every node its scope. -/
def assignScopes (env : Environment) : Load Unit := do
  let s ← get
  let (rootScope, context) := s.context.newScope none
  set { s with context := context.setNodeScope NodeTree.root rootScope }
  let _ ← s.tree.reachable.foldlM (assignScope env rootScope) Table.empty

end MarkupLoader.Load
