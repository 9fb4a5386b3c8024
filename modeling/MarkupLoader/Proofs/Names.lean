import MarkupLoader.Proofs.Stages
import MarkupLoader.Schema.Controls
import Mathlib.Data.List.Induction

/-!
# Names

The names of a report are those that its document declares. **A bearer** of a name is a node that is
loaded, has a value and the directive `x:Name`; in document order the first bearer of a name has it
(`Bearer.firsts`), and every later one (`Bearer.laters`) is recorded as a failure at its directive.
Since all nodes that are loaded share the first scope, a reference finds every name from everywhere,
wherever its bearer stands.

Main results: `start_registerNames`, `ask_reference`, `names_declared`.
-/

namespace MarkupLoader

/-! ## Bearers -/

/-- A node that bears a name: the name, where the directive stands that gives it, and the value of
the node. -/
structure Bearer where
  name : String
  position : Position
  value : Value

namespace Bearer

/-- The failure that is recorded for a bearer whose name is taken. -/
def duplicate (b : Bearer) : LoadError := .duplicateName b.name b.position

/-- Whether a bearer before a place in the list has a name. -/
def isTaken (bearers : List Bearer) (place : Nat) (name : String) : Bool :=
  (bearers.take place).any (·.name == name)

/-- The bearers before which none has their names. -/
def firsts (bearers : List Bearer) : List Bearer :=
  (bearers.zipIdx.filter fun entry => !isTaken bearers entry.2 entry.1.name).map Prod.fst

/-- The bearers before which some other has their names. -/
def laters (bearers : List Bearer) : List Bearer :=
  (bearers.zipIdx.filter fun entry => isTaken bearers entry.2 entry.1.name).map Prod.fst

/-- The names with the values of their first bearers, in the order of these. -/
def table (bearers : List Bearer) : Table String Value :=
  ⟨(firsts bearers).map fun b => (b.name, b.value)⟩

variable {bearers : List Bearer} {b : Bearer}

/-- Whether a name is taken at a place does not depend on what comes after. -/
theorem isTaken_append {place : Nat} (inside : place < bearers.length) (name : String) :
    isTaken (bearers ++ [b]) place name = isTaken bearers place name := by
  rw [isTaken, List.take_append_of_le_length (Nat.le_of_lt inside)]
  rfl

theorem isTaken_length (name : String) :
    isTaken (bearers ++ [b]) bearers.length name = bearers.any (·.name == name) := by
  rw [isTaken, List.take_left]

/-- One more bearer is the last one, and a first or a later one. -/
theorem filter_append (keep : Bool → Bool) :
    (((bearers ++ [b]).zipIdx.filter fun entry =>
      keep (isTaken (bearers ++ [b]) entry.2 entry.1.name)).map Prod.fst) =
    ((bearers.zipIdx.filter fun entry => keep (isTaken bearers entry.2 entry.1.name)).map
      Prod.fst) ++ if keep (bearers.any (·.name == b.name)) then [b] else [] := by
  rw [List.zipIdx_append, List.filter_append, List.map_append]
  congr 1
  · congr 1
    refine List.filter_congr fun entry mem => ?_
    have bound := List.snd_lt_of_mem_zipIdx mem
    rw [isTaken_append (by omega)]
  · rw [List.zipIdx_singleton, Nat.zero_add, List.filter_singleton]
    dsimp only
    rw [isTaken_length]
    cases keep (bearers.any (·.name == b.name)) <;> rfl

theorem firsts_append : firsts (bearers ++ [b]) =
    firsts bearers ++ if bearers.any (·.name == b.name) then [] else [b] := by
  refine (@filter_append bearers b fun taken => !taken).trans ?_
  cases bearers.any (·.name == b.name) <;> rfl

theorem laters_append : laters (bearers ++ [b]) =
    laters bearers ++ if bearers.any (·.name == b.name) then [b] else [] :=
  filter_append fun taken => taken

/-- Every name is that of a first bearer. -/
theorem any_firsts (bearers : List Bearer) (name : String) :
    (firsts bearers).any (·.name == name) = bearers.any (·.name == name) := by
  induction bearers using List.reverseRecOn with
  | nil => rfl
  | append_singleton bearers b ih =>
    rw [firsts_append, List.any_append, List.any_append, ih]
    by_cases taken : bearers.any (·.name == b.name) = true
    · -- The name of a later bearer is there already.
      rw [if_pos taken]
      by_cases same : b.name = name
      · subst same
        simp [taken]
      · simp [same]
    · rw [if_neg taken]

/-- No bearer is a later one if no two have the same name. -/
theorem laters_eq_nil_iff (bearers : List Bearer) :
    laters bearers = [] ↔ (bearers.map (·.name)).Nodup := by
  induction bearers using List.reverseRecOn with
  | nil => exact ⟨fun _ => List.nodup_nil, fun _ => rfl⟩
  | append_singleton bearers b ih =>
    rw [laters_append, List.append_eq_nil_iff, ih, List.map_append, List.nodup_append]
    have taken : bearers.any (·.name == b.name) = true ↔ b.name ∈ bearers.map (·.name) := by
      simp [List.any_eq_true, List.mem_map]
    by_cases there : b.name ∈ bearers.map (·.name)
    · rw [if_pos (taken.2 there)]
      refine iff_of_false (fun none => List.cons_ne_nil _ _ none.2) fun apart => ?_
      exact apart.2.2 _ there b.name (by simp) rfl
    · rw [if_neg (mt taken.1 there)]
      refine ⟨fun nodup => ⟨nodup.1, by simp, ?_⟩, fun both => ⟨both.1, rfl⟩⟩
      intro name mem other is same
      rw [same, List.mem_singleton.1 is] at mem
      exact there mem

/-- A name is in the table if some bearer has it. -/
theorem contains_table (bearers : List Bearer) (name : String) :
    (table bearers).contains name = bearers.any (·.name == name) := by
  rw [← any_firsts]
  unfold Table.contains Table.get? table
  dsimp only
  induction firsts bearers with
  | nil => rfl
  | cons b rest ih =>
    rw [List.map_cons, Table.find?, List.any_cons]
    by_cases same : b.name = name
    · simp [same]
    · rw [if_neg same, ih]
      simp [same]

/-- A bearer whose name is not taken puts its value into the table. -/
theorem table_append (free : bearers.any (·.name == b.name) = false) :
    table (bearers ++ [b]) = (table bearers).insert b.name b.value := by
  have absent : (firsts bearers).any (·.name == b.name) = false := (any_firsts _ _).trans free
  have puts : ∀ list : List Bearer, list.any (·.name == b.name) = false →
      Table.put b.name b.value (list.map fun b => (b.name, b.value)) =
        (list.map fun b => (b.name, b.value)) ++ [(b.name, b.value)] := by
    intro list
    induction list with
    | nil => exact fun _ => rfl
    | cons c rest ih =>
      intro absent
      obtain ⟨other, absent⟩ := Bool.or_eq_false_iff.1 (List.any_cons.symm.trans absent)
      rw [List.map_cons, Table.put, if_neg (by simpa using other), ih absent]
      rfl
  unfold table Table.insert
  rw [firsts_append, free, puts _ absent]
  simp

theorem table_append_of_taken (taken : bearers.any (·.name == b.name) = true) :
    table (bearers ++ [b]) = table bearers := by
  unfold table
  rw [firsts_append, if_pos taken, List.append_nil]

end Bearer

/-! ## Registering -/

namespace LoadState

/-- What a node bears, if it has a name and a value. -/
def bearer? (s : LoadState) (id : NodeId) : Option Bearer := do
  let a ← (s.node id).directive? "Name"
  let name ← a.value.text?
  let value ← s.context.value? id
  return ⟨name, a.position, value⟩

/-- The bearers of names among the nodes that are loaded, in document order. -/
def bearers (s : LoadState) (env : Environment) : List Bearer :=
  (s.loaded env).filterMap s.bearer?

/-- The state with other scopes, in which those bearers are recorded whose names others have. -/
def registered (s : LoadState) (scopes : Array NameScope) (bearers : List Bearer) : LoadState :=
  { s with context := { s.context with
    scopes := scopes
    diagnostics := s.context.diagnostics ++ (Bearer.laters bearers).map Bearer.duplicate } }

/-- The first scope is outermost and has the names of some bearers. -/
structure Holds (scopes : Array NameScope) (bearers : List Bearer) : Prop where
  opened : 0 < scopes.size
  first : scopes[0]?.getD default = ⟨none, Bearer.table bearers⟩

variable {s : LoadState} {scopes : Array NameScope} {bearers : List Bearer} {b : Bearer}
  {id : NodeId} {env : Environment}

theorem registered_nil (s : LoadState) : s.registered s.context.scopes [] = s := by
  show { s with context := { s.context with diagnostics := s.context.diagnostics ++ [] } } = s
  rw [List.append_nil]

/-- What a node in the first scope registers there. -/
theorem naming?_registered (shared : s.context.nodeScope? id = some 0) :
    (s.registered scopes bearers).naming? id =
      (s.bearer? id).map fun b => ⟨b.name, b.position, b.value, 0⟩ := by
  unfold LoadState.naming? LoadState.bearer?
  show (do
    let a ← (s.node id).directive? "Name"
    let name ← a.value.text?
    let value ← s.context.value? id
    let scope ← s.context.nodeScope? id
    return Naming.mk name a.position value scope) = _
  rw [shared]
  cases (s.node id).directive? "Name" with
  | none => rfl
  | some a =>
    show (a.value.text?.bind _) = Option.map _ (a.value.text?.bind _)
    cases a.value.text? with
    | none => rfl
    | some name =>
      show ((s.context.value? id).bind _) = Option.map _ ((s.context.value? id).bind _)
      cases s.context.value? id <;> rfl

/-- A name that is free is put into the first scope. -/
theorem Holds.insert (holds : Holds scopes bearers)
    (free : bearers.any (·.name == b.name) = false) :
    Holds (scopes.modify 0 fun scope => { scope with
      names := scope.names.insert b.name b.value }) (bearers ++ [b]) where
  opened := Nat.lt_of_lt_of_eq holds.opened Array.size_modify.symm
  first := by
    have opened := holds.opened
    have there : scopes[0]? = some scopes[0] := Array.getElem?_eq_getElem opened
    have first := holds.first
    rw [there, Option.getD_some] at first
    rw [Array.getElem?_modify, if_pos rfl, there, Option.map_some, Option.getD_some, first,
      Bearer.table_append free]

theorem registered_insert (scopes : Array NameScope)
    (free : bearers.any (·.name == b.name) = false) :
    s.registered scopes (bearers ++ [b]) =
      { s with context := { (s.registered scopes bearers).context with scopes := scopes } } := by
  unfold registered
  rw [Bearer.laters_append, free]
  simp

/-- A bearer whose name is taken is recorded. -/
theorem registered_taken (scopes : Array NameScope)
    (taken : bearers.any (·.name == b.name) = true) : s.registered scopes (bearers ++ [b]) =
      (s.registered scopes bearers).withRecord
        ((s.registered scopes bearers).context.diagnostics ++ [b.duplicate]) := by
  unfold registered withRecord
  rw [Bearer.laters_append, if_pos taken, List.map_append, ← List.append_assoc]
  rfl

end LoadState

namespace Load

variable {env : Environment} {s : LoadState} {scopes : Array NameScope} {bearers : List Bearer}

/-- A tolerant load registers or records one bearer after the other. -/
theorem start_registerName (tolerant : s.context.tolerant = true)
    (holds : LoadState.Holds scopes bearers) {id : NodeId}
    (shared : s.context.nodeScope? id = some 0) :
    ∃ scopes', LoadState.Holds scopes' (bearers ++ (s.bearer? id).toList) ∧
      (registerName id).start (s.registered scopes bearers) =
        (.ok (), s.registered scopes' (bearers ++ (s.bearer? id).toList)) := by
  rw [registerName, start_get_bind, LoadState.naming?_registered shared]
  cases s.bearer? id with
  | none =>
    rw [Option.toList_none, List.append_nil]
    exact ⟨scopes, holds, rfl⟩
  | some b =>
    have held : ((s.registered scopes bearers).context.scope 0).names.contains b.name =
        bearers.any (·.name == b.name) := by
      show (scopes[0]?.getD default).names.contains b.name = _
      rw [holds.first, Bearer.contains_table]
    rw [Option.map_some, Option.toList_some]
    dsimp only
    unfold Context.register
    rw [held]
    cases taken : bearers.any (·.name == b.name) with
    | true =>
      refine ⟨scopes, ⟨holds.opened, ?_⟩, ?_⟩
      · rw [Bearer.table_append_of_taken taken]
        exact holds.first
      · rw [LoadState.registered_taken scopes taken]
        have passes : b.duplicate.isFatal = false := rfl
        exact start_recover_tolerant (s := s.registered scopes bearers) tolerant passes
    | false =>
      refine ⟨_, holds.insert taken, ?_⟩
      rw [LoadState.registered_insert _ taken]
      rfl

/-- **Registration sees to all bearers**, the first of a name and the later ones. -/
theorem start_registerNames (shared : s.Scoped env) (proper : s.tree.Proper)
    (tolerant : s.context.tolerant = true) :
    ∃ scopes, LoadState.Holds scopes (s.bearers env) ∧
      (registerNames env).start s = (.ok (), s.registered scopes (s.bearers env)) := by
  have each : ∀ (ids : List NodeId) (scopes : Array NameScope) (bearers : List Bearer),
      (∀ id ∈ ids, s.context.nodeScope? id = some 0) → LoadState.Holds scopes bearers →
      ∃ scopes', LoadState.Holds scopes' (bearers ++ ids.filterMap s.bearer?) ∧
        (ids.forM registerName).start (s.registered scopes bearers) =
          (.ok (), s.registered scopes' (bearers ++ ids.filterMap s.bearer?)) := by
    intro ids
    induction ids with
    | nil =>
      intro scopes bearers _ holds
      rw [List.filterMap_nil, List.append_nil]
      exact ⟨scopes, holds, rfl⟩
    | cons id rest ih =>
      intro scopes bearers inFirst holds
      obtain ⟨here, later⟩ := List.forall_mem_cons.1 inFirst
      obtain ⟨scopes', holds, first⟩ := start_registerName tolerant holds here
      obtain ⟨scopes'', holds, others⟩ := ih scopes' _ later holds
      have all : bearers ++ (id :: rest).filterMap s.bearer? =
          bearers ++ (s.bearer? id).toList ++ rest.filterMap s.bearer? := by
        rw [List.filterMap_cons, List.append_assoc]
        cases s.bearer? id <;> rfl
      rw [all]
      exact ⟨scopes'', holds, (start_bind_of_ok first).trans others⟩
  have inFirst : ∀ id ∈ s.loaded env, s.context.nodeScope? id = some 0 :=
    fun id mem => shared.nodes id ((NodeTree.mem_preorder proper).1 mem)
  obtain ⟨scopes, holds, ran⟩ := each _ s.context.scopes [] inFirst ⟨shared.opened, shared.scope⟩
  rw [s.registered_nil] at ran
  exact ⟨scopes, holds, ran⟩

section Strict

variable (shared : s.Scoped env) (proper : s.tree.Proper) (strict : s.context.tolerant = false)
  (none_yet : s.context.diagnostics = [])

/-- A strict state is the strict side of a tolerant one. -/
def lenient (s : LoadState) : LoadState := { s with context := { s.context with tolerant := true } }

include strict in
theorem strict_lenient : (lenient s).strict = s := by
  obtain ⟨tree, root, context, heap⟩ := s
  obtain ⟨element, tolerant, values, scopes, nodeScopes, outerScope, diagnostics, passes⟩ := context
  obtain rfl : tolerant = false := strict
  rfl

theorem lockstep_registerNames (env : Environment) : Lockstep (registerNames env) :=
  lockstep_runPass env .nameRegistration

include shared proper strict none_yet

/-- A strict load registers all bearers, if none is a later one. -/
theorem start_registerNames_strict (once : Bearer.laters (s.bearers env) = []) :
    ∃ scopes, LoadState.Holds scopes (s.bearers env) ∧
      (registerNames env).start s = (.ok (), s.registered scopes (s.bearers env)) := by
  obtain ⟨scopes, holds, ran⟩ := start_registerNames (s := lenient s) ⟨shared.opened, shared.scope,
    shared.nodes⟩ proper rfl
  obtain ⟨-, -, same, -⟩ := lockstep_registerNames env (lenient s)
  have none_now : ((registerNames env).start (lenient s)).2.context.diagnostics = [] := by
    rw [ran]
    show s.context.diagnostics ++ (Bearer.laters (s.bearers env)).map Bearer.duplicate = []
    rw [once, none_yet]
    rfl
  have ran' := same rfl none_yet none_now
  rw [strict_lenient strict, ran] at ran'
  refine ⟨scopes, holds, ran'.trans ?_⟩
  have side : s.registered scopes (s.bearers env) =
      (lenient s).strict.registered scopes (s.bearers env) := by rw [strict_lenient strict]
  rw [side]
  rfl

/-- A strict load fails at the first bearer that is a later one. -/
theorem start_registerNames_stops {b : Bearer} {rest : List Bearer}
    (later : Bearer.laters (s.bearers env) = b :: rest) :
    ((registerNames env).start s).1 = .error b.duplicate := by
  obtain ⟨scopes, holds, ran⟩ := start_registerNames (s := lenient s) ⟨shared.opened, shared.scope,
    shared.nodes⟩ proper rfl
  obtain ⟨-, -, -, stops⟩ := lockstep_registerNames env (lenient s)
  have stopped := stops rfl none_yet b.duplicate (rest.map Bearer.duplicate) (by
    rw [ran]
    show s.context.diagnostics ++ (Bearer.laters (s.bearers env)).map Bearer.duplicate = _
    rw [later, none_yet]
    rfl)
  rwa [strict_lenient strict] at stopped

end Strict

end Load

/-! ## When names are registered -/

/-- The names of what was loaded in `s` are registered in `t`: the first scope has those of the
first bearers, and the later ones are recorded. -/
structure LoadState.Named (env : Environment) (s t : LoadState) : Prop where
  holds : LoadState.Holds t.context.scopes (s.bearers env)
  nodeScopes : t.context.nodeScopes = s.context.nodeScopes
  outerScope : t.context.outerScope = s.context.outerScope
  duplicates : t.duplicates = (Bearer.laters (s.bearers env)).map Bearer.duplicate

namespace LoadState

variable {env : Environment} {s t u : LoadState} {id : NodeId} {scopes : Array NameScope}

/-- Names stay registered where the scopes are kept. -/
theorem Named.kept (named : s.Named env t) (kept : t.KeepsScopes u) : s.Named env u where
  holds := kept.scopes ▸ named.holds
  nodeScopes := kept.nodeScopes.trans named.nodeScopes
  outerScope := kept.outerScope.trans named.outerScope
  duplicates := kept.duplicates.trans named.duplicates

/-- Registering the bearers of a document in which none has been recorded. -/
theorem Named.registered (holds : Holds scopes (s.bearers env)) (none_yet : s.duplicates = []) :
    s.Named env (s.registered scopes (s.bearers env)) where
  holds := holds
  nodeScopes := rfl
  outerScope := rfl
  duplicates := by
    have all : ∀ bearers : List Bearer, (bearers.map Bearer.duplicate).filter (·.isDuplicate) =
        bearers.map Bearer.duplicate := by
      refine fun bearers => List.filter_eq_self.2 fun error mem => ?_
      obtain ⟨b, -, rfl⟩ := List.mem_map.1 mem
      rfl
    show (s.context.diagnostics ++ _).filter (·.isDuplicate) = _
    rw [List.filter_append, all]
    exact congrArg (· ++ _) none_yet

theorem Named.scope (named : s.Named env t) :
    t.context.scope 0 = ⟨none, Bearer.table (s.bearers env)⟩ := named.holds.first

/-- The names of a load are those of the first bearers. -/
theorem Named.names (named : s.Named env t) : t.names = Bearer.table (s.bearers env) := by
  have opened : t.context.rootScope? = some 0 := by
    have size := named.holds.opened
    unfold Context.rootScope?
    rw [if_neg]
    intro empty
    have none_there := Array.isEmpty_iff_size_eq_zero.1 empty
    omega
  unfold LoadState.names
  rw [opened]
  exact congrArg NameScope.names named.scope

/-- Every node that is loaded finds the names of the first bearers, and no others. -/
theorem Named.named? (named : s.Named env t) (shared : s.Scoped env)
    (reached : s.tree.Reaches (s.isTemplate env) NodeTree.root id) (name : String) :
    (t.site env id).named? name = (Bearer.table (s.bearers env)).get? name := by
  have own : t.context.nodeScope? id = some 0 := by
    unfold Context.nodeScope?
    rw [named.nodeScopes]
    exact shared.nodes id reached
  have scope : (t.site env id).scope? = some 0 := by
    show (id :: t.tree.ancestors id).findSome? t.context.nodeScope? = some 0
    rw [List.findSome?_cons, own]
  have outermost : (t.context.scope 0).parent = none := congrArg NameScope.parent named.scope
  rw [Site.named?, scope, Option.bind_some]
  show t.context.findName 0 name = _
  rw [Context.findName_outermost named.holds.opened outermost, named.scope]

end LoadState

/-! ## References -/

namespace Extensions

/-- What a reference comes to, given the value under the name that it asks for. -/
def referred (name : String) : Option Value → Except EvaluationFault Value
  | some value => .ok value
  | none => .error (.failed s!"Can not find the object referenced by `{name}`")

/-- A reference gives what is registered under the name at its place, or fails. -/
theorem ask_reference {arguments : Arguments} {services : Services} {name : String}
    (asked : arguments.text services.heap "Name" 0 = .ok name) :
    ask reference arguments services = referred name (services.named? name) := by
  have gives : reference arguments services = match services.named? name with
      | some value => .ok value
      | none => .error s!"Can not find the object referenced by `{name}`" := by
    unfold reference
    rw [asked]
    dsimp only [bind, Except.bind]
    cases services.named? name <;> rfl
  rw [ask, gives]
  cases services.named? name <;> rfl

end Extensions

/-- Arguments that are one text for a parameter, given by its name or as the first. -/
inductive Args.Only (parameter text : String) : Args → Prop
  | first : Args.Only parameter text (.text none text .nil)
  | named : Args.Only parameter text (.text (some parameter) text .nil)

/-- An expression whose arguments are one text asks its extension with that text. -/
theorem Extensions.evaluate_of_only {e : Extensions} {place : Site} {x : Expression}
    {extension : Extension} {parameter text : String}
    (calls : e.lookUp x.head = .ok extension) (only : x.args.Only parameter text) :
    ∃ arguments, arguments.text place.heap parameter 0 = .ok text ∧
      e.evaluate place x = ask extension arguments place.services := by
  obtain ⟨head, args⟩ := x
  have evaluates : ∀ arguments, e.evaluateArgs place.services args = .ok arguments →
      e.evaluate place ⟨head, args⟩ = ask extension arguments place.services := by
    intro arguments evaluated
    unfold evaluate
    rw [calls]
    dsimp only [bind, Except.bind]
    rw [evaluated]
  cases only with
  | first => exact ⟨⟨[.string text], []⟩, rfl, evaluates _ rfl⟩
  | named =>
    refine ⟨⟨[], [(parameter, .string text)]⟩, ?_, evaluates _ rfl⟩
    have given : (Arguments.mk [] [(parameter, .string text)]).get? parameter 0 =
        some (.string text) := by
      simp [Arguments.get?, List.lookup_cons_self]
    rw [Arguments.text, given]

/-! ## Loads -/

namespace Load

section Populated

variable {env : Environment} {tolerant : Bool} {s before created filled t : LoadState}
  (populates : Populates env tolerant s before created filled) (proper : s.tree.Proper)
  (fresh : s.Fresh)

include populates proper fresh

/-- Names are registered, unless a strict load comes to a later bearer. -/
theorem Populates.named (passes : tolerant = true ∨ Bearer.laters (filled.bearers env) = []) :
    ∃ t, (completePass env .nameRegistration).start filled = (.ok (), t) ∧ filled.Named env t := by
  have shared := populates.inFirstScope proper
  have proper' := (populates.proper proper).1
  have registers : ∃ scopes, LoadState.Holds scopes (filled.bearers env) ∧
      (registerNames env).start filled =
        (.ok (), filled.registered scopes (filled.bearers env)) := by
    cases tolerant with
    | true => exact start_registerNames shared proper' populates.flag
    | false =>
      have none_yet := populates.diagnostics.trans (populates.strictly rfl)
      exact start_registerNames_strict shared proper' populates.flag none_yet
        (passes.resolve_left nofun)
  obtain ⟨scopes, holds, ran⟩ := registers
  refine ⟨_, start_bind_of_ok ran, ?_⟩
  exact (LoadState.Named.registered holds (populates.duplicates fresh)).kept
    (frame_keepsScopes.passed _ _)

omit fresh in
/-- A strict load does not come past a later bearer. -/
theorem Populates.stops {b : Bearer} {rest : List Bearer} (strict : tolerant = false)
    (later : Bearer.laters (filled.bearers env) = b :: rest) :
    ∃ t, (completePass env .nameRegistration).start filled = (.error b.duplicate, t) := by
  subst strict
  have none_yet := populates.diagnostics.trans (populates.strictly rfl)
  have failed := start_registerNames_stops (populates.inFirstScope proper)
    (populates.proper proper).1 populates.flag none_yet later
  rcases ran : (registerNames env).start filled with ⟨ended, t⟩
  rw [ran] at failed
  obtain rfl : ended = .error b.duplicate := failed
  exact ⟨t, start_bind_of_error ran⟩

/-- Where names have been registered, all of them are. -/
theorem Populates.named_of_ok
    (ran : (completePass env .nameRegistration).start filled = (.ok (), t)) :
    filled.Named env t := by
  by_cases passes : tolerant = true ∨ Bearer.laters (filled.bearers env) = []
  · obtain ⟨t', ran', named⟩ := populates.named proper fresh passes
    obtain rfl : t = t' := congrArg Prod.snd (ran.symm.trans ran')
    exact named
  · obtain ⟨strict, some_later⟩ := not_or.1 passes
    obtain ⟨b, rest, later⟩ := List.exists_cons_of_ne_nil some_later
    obtain ⟨t', ran'⟩ := populates.stops proper (Bool.eq_false_iff.2 strict) later
    rw [ran] at ran'
    cases congrArg Prod.fst ran'

end Populated

/-- The passes after the registration of names keep the scopes. -/
theorem stays_laterPasses (env : Environment) : Stays LoadState.KeepsScopes
    ([Pass.resourceDictionaryFill, .propertyApplication].forM (completePass env)) := by
  have frame := frame_keepsScopes
  refine stays_forM_of_mem frame fun pass mem => stays_completePass frame ?_
  simp only [List.mem_cons, List.not_mem_nil, or_false] at mem
  rcases mem with rfl | rfl
  · exact stays_fillResources frame env
  · exact stays_applyProperties frame env

/-- How a load ends that has come to create all values: with all names registered, and no failure
because of a name, or with the failure of the first later bearer, if the load is strict. -/
theorem Populates.ends {env : Environment} {tolerant : Bool}
    {s before created filled : LoadState}
    (populates : Populates env tolerant s before created filled)
    (proper : s.tree.Proper) (fresh : s.Fresh) {run : Run}
    (is : run = .ofStep (furnish env) filled) :
    (tolerant = true ∨ Bearer.laters (filled.bearers env) = []) ∧ filled.Named env run.state ∧
        (∀ error, run.ended = .error error → error.isDuplicate = false) ∨
      tolerant = false ∧ ∃ b rest, Bearer.laters (filled.bearers env) = b :: rest ∧
        run.ended = .error b.duplicate := by
  subst is
  unfold Run.ofStep
  by_cases passes : tolerant = true ∨ Bearer.laters (filled.bearers env) = []
  · obtain ⟨t, registered, named⟩ := populates.named proper fresh passes
    have goesOn : (furnish env).start filled =
        ([Pass.resourceDictionaryFill, .propertyApplication].forM (completePass env)).start t :=
      start_bind_of_ok registered
    obtain ⟨kept, failure⟩ := stays_laterPasses env t
    rw [goesOn]
    exact .inl ⟨passes, named.kept kept, failure⟩
  · obtain ⟨some_tolerant, some_later⟩ := not_or.1 passes
    have strict : tolerant = false := Bool.eq_false_iff.2 some_tolerant
    obtain ⟨b, rest, later⟩ := List.exists_cons_of_ne_nil some_later
    obtain ⟨t, stopped⟩ := populates.stops proper strict later
    have ends : (furnish env).start filled = (.error b.duplicate, t) :=
      start_bind_of_error stopped
    rw [ends]
    exact .inr ⟨strict, b, rest, later, rfl⟩

section Evaluating

variable {env : Environment} {tolerant : Bool} {s before created filled t u : LoadState}
  {id : NodeId} {a : Attribute}

/-- Names are registered when dictionaries have been filled. -/
theorem Populates.named_of_furnished (populates : Populates env tolerant s before created filled)
    (proper : s.tree.Proper) (fresh : s.Fresh)
    (furnished : ([Pass.nameRegistration, .resourceDictionaryFill].forM (completePass env)).start
      filled = (.ok (), t)) : filled.Named env t := by
  obtain ⟨_, v, registered, ran⟩ := ok_of_start_bind furnished
  have frame := frame_keepsScopes
  have filling : Stays LoadState.KeepsScopes
      ([Pass.resourceDictionaryFill].forM (completePass env)) :=
    stays_forM_of_mem frame fun pass mem => by
      obtain rfl := List.mem_singleton.1 mem
      exact stays_completePass frame (stays_fillResources frame env)
  exact (populates.named_of_ok proper fresh registered).kept (filling.ran ran)

/-- **A reference finds every name from everywhere.** Where an attribute is evaluated, the names
that are found are those of the first bearers. -/
theorem Populates.named? (populates : Populates env tolerant s before created filled)
    (proper : s.tree.Proper) (fresh : s.Fresh)
    (furnished : ([Pass.nameRegistration, .resourceDictionaryFill].forM (completePass env)).start
      filled = (.ok (), t)) (evaluates : Evaluates env t id a u) (name : String) :
    (u.site env id).services.named? name =
      (Bearer.table (filled.bearers env)).get? name := by
  have named := populates.named_of_furnished proper fresh furnished
  have tree := ((settles_fill Heap.filling_retains env).ran furnished).tree
  have reached : filled.tree.Reaches (filled.isTemplate env) NodeTree.root id := by
    have loaded := evaluates.loaded
    unfold LoadState.loadedUpwards LoadState.isTemplate LoadState.node at loaded
    rw [tree] at loaded
    exact (NodeTree.mem_postorder (populates.proper proper).1).1 loaded
  exact (named.kept evaluates.keepsScopes).named? (populates.inFirstScope proper) reached name

/-- A reference gives what the first bearer of the name is, also where it is written out. -/
theorem Populates.refers (populates : Populates env tolerant s before created filled)
    (proper : s.tree.Proper) (fresh : s.Fresh)
    (furnished : ([Pass.nameRegistration, .resourceDictionaryFill].forM (completePass env)).start
      filled = (.ok (), t)) (evaluates : Evaluates env t id a u) :
    (∀ arguments name, arguments.text u.heap "Name" 0 = .ok name →
      Extensions.ask Extensions.reference arguments (u.site env id).services =
        Extensions.referred name ((Bearer.table (filled.bearers env)).get? name)) ∧
    ∀ x name, env.extensions.lookUp x.head = .ok Extensions.reference →
      x.args.Only "Name" name →
      env.extensions.evaluate (u.site env id) x =
        Extensions.referred name ((Bearer.table (filled.bearers env)).get? name) := by
  have asks : ∀ arguments name, arguments.text (u.site env id).services.heap "Name" 0 = .ok name →
      Extensions.ask Extensions.reference arguments (u.site env id).services =
        Extensions.referred name ((Bearer.table (filled.bearers env)).get? name) := by
    intro arguments name asked
    have finds := populates.named? proper fresh furnished evaluates name
    rw [Extensions.ask_reference asked, finds]
  refine ⟨asks, fun x name calls only => ?_⟩
  obtain ⟨arguments, asked, evaluated⟩ :=
    @Extensions.evaluate_of_only _ (u.site env id) _ _ _ _ calls only
  rw [evaluated]
  exact asks arguments name asked

end Evaluating

end Load

/-! ## Requests -/

namespace Run

variable {r : Run} {report : Report} {error : LoadError}

/-- A report says what is known at the end of the run. -/
theorem report_of_result (reported : r.outcome.result = .ok report) :
    report.names = r.state.names ∧ report.diagnostics = r.state.context.diagnostics := by
  obtain ⟨_, -, rfl⟩ := eq_of_result reported
  exact ⟨rfl, rfl⟩

/-- A load that fails because of a name has been given up. -/
theorem ended_of_result (failed : r.outcome.result = .error error)
    (duplicate : error.isDuplicate = true) : r.ended = .error error := by
  unfold Run.outcome at failed
  split at failed
  · unfold LoadState.report at failed
    split at failed
    · cases failed
    · cases failed
      cases duplicate
  · cases failed
    assumption

end Run

namespace Request

variable {env : Environment} {tolerant : Bool} {h : Heap} {request : Request} {s : LoadState}

/--
**Names are those that are declared, and references do not depend on the order.** In a load that
comes to a state in which all values are there:

* a node that bears a name makes an object and is loaded, so it stands outside templates and is no
  property element;
* if names are given to one object each, or the load is tolerant, then the names at its end are
  those of the first bearers, and each later bearer has been recorded once, at its directive, in
  document order; this is what a report says;
* a strict load fails because of a name if and only if two objects bear the same, and then because
  of the first later bearer;
* wherever properties are applied, a reference gives what the first bearer of the name is, and fails
  if there is none.
-/
theorem names_declared (fits : request.Fits h) (populated : request.Populated env tolerant h s) :
    let bearers := s.bearers env
    let names := Bearer.table bearers
    let again := (Bearer.laters bearers).map Bearer.duplicate
    let result := (request.outcome env tolerant h).result
    (∀ id b, s.tree.Reaches (fun _ => false) NodeTree.root id → s.bearer? id = some b →
      id ∈ s.loaded env ∧ (s.node id).isObject = true) ∧
    (tolerant = true ∨ (bearers.map (·.name)).Nodup →
      ∃ run, request.run env tolerant h = .ok run ∧ run.state.names = names ∧
        run.state.duplicates = again) ∧
    (∀ report, result = .ok report →
      report.names = names ∧ report.diagnostics.filter (·.isDuplicate) = again) ∧
    (tolerant = false →
      ((∃ error, result = .error error ∧ error.isDuplicate = true) ↔
        ¬ (bearers.map (·.name)).Nodup) ∧
      ∀ error, result = .error error → error.isDuplicate = true → again.head? = some error) ∧
    ∀ t id a u, ([Pass.nameRegistration, .resourceDictionaryFill].forM
        (Load.completePass env)).start s = (.ok (), t) → Load.Evaluates env t id a u →
      (∀ arguments name, arguments.text u.heap "Name" 0 = .ok name →
        Extensions.ask Extensions.reference arguments (u.site env id).services =
          Extensions.referred name (names.get? name)) ∧
      ∀ x name, env.extensions.lookUp x.head = .ok Extensions.reference →
        x.args.Only "Name" name →
        env.extensions.evaluate (u.site env id) x = Extensions.referred name (names.get? name) := by
  intro bearers names again result
  obtain ⟨first, before, created, ⟨proper, fresh, -, -⟩, populates⟩ := populated.populates fits
  have ran := populated.run
  have once : (bearers.map (·.name)).Nodup ↔ Bearer.laters bearers = [] :=
    (Bearer.laters_eq_nil_iff bearers).symm
  generalize is : Run.ofStep (Load.furnish env) s = run at ran
  have outcome : result = run.outcome.result := by
    show (request.outcome env tolerant h).result = _
    rw [outcome_eq, ran]
  have ends := populates.ends proper fresh is.symm
  refine ⟨fun id b reached bears => ?_, fun passes => ?_, fun report reported => ?_,
    fun strict => ⟨⟨?_, fun twice => ?_⟩, fun error failed duplicate => ?_⟩,
    fun t id a u furnished evaluates => populates.refers proper fresh furnished evaluates⟩
  · -- A bearer has a value, which nodes that are not loaded and those that make no object have not.
    obtain ⟨_, -, bears⟩ := Option.bind_eq_some_iff.1 bears
    obtain ⟨_, -, bears⟩ := Option.bind_eq_some_iff.1 bears
    obtain ⟨value, has, -⟩ := Option.bind_eq_some_iff.1 bears
    exact ⟨populates.loaded_of_value proper reached has, (populates.of_value proper has).1⟩
  · obtain ⟨-, named, -⟩ | ⟨strict, b, rest, later, -⟩ := ends
    · exact ⟨run, ran, named.names, named.duplicates⟩
    · have none_later := once.1 (passes.resolve_left (by simp [strict]))
      rw [later] at none_later
      cases none_later
  · rw [outcome] at reported
    obtain ⟨-, named, -⟩ | ⟨-, b, rest, -, failed⟩ := ends
    · obtain ⟨is_names, is_diagnostics⟩ := Run.report_of_result reported
      rw [is_names, is_diagnostics]
      exact ⟨named.names, named.duplicates⟩
    · rw [Run.outcome, failed] at reported
      cases reported
  · rintro ⟨error, failed, duplicate⟩ nodup
    rw [outcome] at failed
    have failed := Run.ended_of_result failed duplicate
    obtain ⟨-, -, other⟩ | ⟨-, b, rest, later, -⟩ := ends
    · rw [other error failed] at duplicate
      cases duplicate
    · rw [once.1 nodup] at later
      cases later
  · obtain ⟨passes, -, -⟩ | ⟨-, b, rest, -, failed⟩ := ends
    · exact absurd (once.2 (passes.resolve_left (by simp [strict]))) twice
    · refine ⟨b.duplicate, ?_, rfl⟩
      rw [outcome, Run.outcome, failed]
  · rw [outcome] at failed
    have failed := Run.ended_of_result failed duplicate
    obtain ⟨-, -, other⟩ | ⟨-, b, rest, later, failed'⟩ := ends
    · rw [other error failed] at duplicate
      cases duplicate
    · obtain rfl : b.duplicate = error := Except.error.inj (failed'.symm.trans failed)
      show ((Bearer.laters bearers).map Bearer.duplicate).head? = _
      rw [later]
      rfl

/-- Two labels bear the same name, and a button before them refers to it: it gets the first one, and
the second is recorded at its directive. -/
theorem names_declared_layout :
    let env : Environment := ⟨.controls, .builtIn⟩
    let markup := "<StackLayout xmlns=\"http://xamarin.com/schemas/2014/forms\" " ++
      "xmlns:x=\"http://schemas.microsoft.com/winfx/2009/xaml\">" ++
      "<Button CommandParameter=\"\x7bx:Reference a\x7d\"/><Label x:Name=\"a\"/>" ++
      "<Label x:Name=\"a\"/></StackLayout>"
    let request := create markup
    let name (column : Nat) : Attribute := ⟨⟨language2009, "Name"⟩, .raw "a", ⟨1, column⟩⟩
    let tree : NodeTree := ⟨#[
      ⟨⟨.root, ⟨formsNamespace, "StackLayout"⟩, [], [],
        [("", formsNamespace), ("x", language2009)], ⟨1, 1⟩⟩, [1, 2, 3], none⟩,
      ⟨⟨.element, ⟨formsNamespace, "Button"⟩, [],
        [⟨⟨"", "CommandParameter"⟩, .raw "\x7bx:Reference a\x7d", ⟨1, 123⟩⟩], [], ⟨1, 115⟩⟩, [],
        none⟩,
      ⟨⟨.element, ⟨formsNamespace, "Label"⟩, [], [name 166], [], ⟨1, 159⟩⟩, [], none⟩,
      ⟨⟨.element, ⟨formsNamespace, "Label"⟩, [], [name 185], [], ⟨1, 178⟩⟩, [], none⟩], []⟩
    let x : Expression := ⟨⟨some "x", "Reference", language2009, "\x7bx:Reference a\x7d"⟩,
      .text none "a" .nil⟩
    let a : Attribute := ⟨⟨"", "CommandParameter"⟩, .expression x, ⟨1, 123⟩⟩
    let first : LoadState := .initial tree none (.start none true []) .empty
    let s := ((request.opening env >>= fun _ => Load.populate env).start first).2
    let t := (([Pass.nameRegistration, .resourceDictionaryFill].forM
      (Load.completePass env)).start s).2
    request.Fits .empty ∧ request.Populated env true .empty s ∧ Load.Evaluates env t 1 a t ∧
      ((s.bearers env).map fun b => (b.name, b.value.object?)) = [("a", some 2), ("a", some 3)] ∧
      (∃ run, request.run env true .empty = .ok run ∧
        run.state.names = Bearer.table (s.bearers env) ∧
        run.state.duplicates = [.duplicateName "a" ⟨1, 185⟩]) ∧
      ∃ value, env.extensions.evaluate (t.site env 1) x = .ok value ∧ value.object? = some 2 := by
  intro env markup request name tree x a first s t
  have begins : request.initial true .empty = .ok first := by
    have read : NodeTree.read markup = .ok tree := NodeTree.read_of_toOption (by decide +kernel)
    show (create markup).initial true .empty = _
    rw [initial, read]
  -- What the passes leave is worked out once.
  obtain ⟨populated, bears, twice, first_value, furnished, order, has, kind, attributes⟩ :
      ((request.opening env >>= fun _ => Load.populate env).start first).1 = .ok () ∧
      ((s.bearers env).map fun b => (b.name, b.value.object?)) = [("a", some 2), ("a", some 3)] ∧
      (Bearer.laters (s.bearers env)).map Bearer.duplicate = [.duplicateName "a" ⟨1, 185⟩] ∧
      ((Bearer.table (s.bearers env)).get? "a").bind Value.object? = some 2 ∧
      (([Pass.nameRegistration, .resourceDictionaryFill].forM (Load.completePass env)).start s).1 =
        .ok () ∧
      t.loadedUpwards env = [] ++ 1 :: [2, 3, 0] ∧ t.context.object? 1 = some 1 ∧
      t.heap.kind 1 = .plain ∧ (t.node 1).attributes = [] ++ a :: [] := by
    decide +kernel
  have fits : request.Fits .empty := trivial
  have comes : request.Populated env true .empty s := ⟨first, begins, Load.start_of_ok populated⟩
  have furnishes : ([Pass.nameRegistration, .resourceDictionaryFill].forM
      (Load.completePass env)).start s = (.ok (), t) := Load.start_of_ok furnished
  clear_value t s
  have entered : (Load.enterNode env 1 1).start t = (.ok (), t) := by
    rw [Load.enterNode, Load.start_get_bind, if_neg (by rw [kind]; decide)]
    rfl
  have evaluates : Load.Evaluates env t 1 a t :=
    .intro order (Load.start_forM_nil _ t) has entered attributes (Load.start_forM_nil _ t)
  obtain ⟨-, registers, -, -, refers⟩ := names_declared fits comes
  obtain ⟨run, ran, names, duplicates⟩ := registers (.inl rfl)
  obtain ⟨-, gives⟩ := refers t 1 a t furnishes evaluates
  obtain ⟨value, is, object⟩ := Option.bind_eq_some_iff.1 first_value
  refine ⟨fits, comes, evaluates, bears, ⟨run, ran, names, duplicates.trans twice⟩, value, ?_,
    object⟩
  rw [gives x "a" rfl .first, is]
  rfl

end Request

end MarkupLoader
