import MarkupLoader.Proofs.Detaching
import MarkupLoader.Proofs.LexicalScope
import Mathlib.Logic.Relation

/-!
# Walks upwards and outwards

Two walks of a load follow links that the load itself writes, and neither looks out for circles: the
one from a node to its parent, and the one from a name scope to the scope around it. **Both go from
later places to earlier ones**, so that they come to an end.

* **Links** that lead to earlier places come to an end and to no place twice (`Trail`).
* **Nodes.** In an intact tree the walk from any node ends at a node without a parent
  (`NodeTree.LeadsUp`), also from a node that is no longer listed. From a node that can be reached it
  ends at the outermost one, and each node on the way lists the one before it.
* **Scopes.** A scope is made inside one that is there already (`Context.Built`), so the walk from it
  ends at an outermost scope, and a look-up finds the name in the first scope on the way that has it
  (`Context.LooksOutward`).
* **Loads.** What the passes behind the linking of parents do to the tree and to the scopes is a
  sequence of single changes (`LoadState.Changes`): a node is detached, attributes are replaced, a
  scope is made, a node gets a scope, or a name is registered. Every state on the way is reached by
  such changes, and they keep both walks as they should be.

Main results: `NodeTree.Intact.leadsUp`, `Context.Built.looksOutward`,
`Load.changing_completePass`, `Request.leads_upward`.
-/

namespace MarkupLoader

/-! ## Following links -/

/-- The places that links lead to from a place, nearest first, up to one that has no link. -/
inductive Trail (link : Nat → Option Nat) : Nat → List Nat → Prop
  | ends {i : Nat} (last : link i = none) : Trail link i []
  | goesOn {i j : Nat} {rest : List Nat} (next : link i = some j) (later : Trail link j rest) :
    Trail link i (j :: rest)

section Trails

variable {link : Nat → Option Nat} {i : Nat} {trail : List Nat}

/-- Links to earlier places come to an end. -/
theorem exists_trail (falls : ∀ i j, link i = some j → j < i) (i : Nat) :
    ∃ trail, Trail link i trail := by
  induction i using Nat.strongRecOn with
  | ind i ih =>
    cases next : link i with
    | none => exact ⟨[], .ends next⟩
    | some j =>
      obtain ⟨rest, later⟩ := ih j (falls i j next)
      exact ⟨j :: rest, .goesOn next later⟩

theorem Trail.pairwise (follows : Trail link i trail) (falls : ∀ i j, link i = some j → j < i) :
    (i :: trail).Pairwise fun a b => b < a := by
  induction follows with
  | ends => exact List.pairwise_singleton _ _
  | @goesOn i j rest next _ ih =>
    have less := falls i j next
    refine List.pairwise_cons.2 ⟨fun n mem => ?_, ih⟩
    obtain rfl | later := List.mem_cons.1 mem
    · exact less
    · exact Nat.lt_trans ((List.pairwise_cons.1 ih).1 n later) less

/-- Links to earlier places lead to no place twice. -/
theorem Trail.nodup (follows : Trail link i trail) (falls : ∀ i j, link i = some j → j < i) :
    (i :: trail).Nodup := (follows.pairwise falls).imp Nat.ne_of_gt

end Trails

/-! ## From node to parent -/

namespace NodeTree

variable {t : NodeTree}

/-- The parent of a node. -/
def parent? (t : NodeTree) (id : NodeId) : Option NodeId := (t.node id).parent

theorem Rising.trail (rising : t.Rising) (id : NodeId) : Trail t.parent? id (t.ancestors id) := by
  induction id using Nat.strongRecOn with
  | ind id ih =>
    rw [rising.ancestors_eq]
    cases next : (t.node id).parent with
    | none => exact .ends next
    | some parent => exact .goesOn next (ih parent (rising id parent next))

/-- **The walk upwards comes to an end**, from every node of the tree. -/
structure LeadsUp (t : NodeTree) : Prop where
  ends : ∀ id, Trail t.parent? id (t.ancestors id)
  once : ∀ id, (id :: t.ancestors id).Nodup
  /-- From a node that can be reached it goes to the outermost one, and each node on the way lists
  the one before it. -/
  path : ∀ id ∈ t.reachable, t.Above id (t.ancestors id)

theorem Intact.leadsUp (intact : t.Intact) : t.LeadsUp where
  ends := intact.rising.trail
  once id := (intact.rising.trail id).nodup intact.rising
  path id mem := by
    obtain ⟨above, path⟩ := exists_above ((mem_preorder intact.proper).1 mem)
    rwa [path.ancestors intact.proper intact.tied.linked]

end NodeTree

/-! ## From scope to scope -/

namespace Context

variable {c d : Context} {i : ScopeId} {trail : List ScopeId}

/-- What becomes of the scopes of a context in one step. A new scope is made inside one that is
there, and a node is given one that is there. -/
inductive Grows (c : Context) : Context → Prop
  | opened (parent : Option ScopeId) (inside : ∀ p ∈ parent, p < c.scopes.size) :
    Grows c (c.newScope parent).2
  | placed (id : NodeId) {scope : ScopeId} (inside : scope < c.scopes.size) :
    Grows c (c.setNodeScope id scope)
  | registered {scope : ScopeId} {name : String} {value : Value} {d : Context}
    (registers : c.register scope name value = some d) : Grows c d
  | aside {d : Context} (scopes : d.scopes = c.scopes) (nodeScopes : d.nodeScopes = c.nodeScopes) :
    Grows c d

/-- Contexts as loads make them. -/
inductive Built : Context → Prop
  | start (rootElement : Option ObjectId) (tolerant : Bool) (around : List ObjectId) :
    Built (.start rootElement tolerant around)
  | grown {c d : Context} (built : Built c) (grows : c.Grows d) : Built d

/-- Scopes are inside earlier ones, and nodes have scopes that are there. -/
structure Nested (c : Context) : Prop where
  earlier : ∀ i p, (c.scope i).parent = some p → p < i
  placed : ∀ id i, c.nodeScope? id = some i → i < c.scopes.size

theorem nested_start (rootElement : Option ObjectId) (tolerant : Bool) (around : List ObjectId) :
    (start rootElement tolerant around).Nested where
  earlier _ _ := nofun
  placed _ _ := nofun

theorem scope_newScope (c : Context) (parent : Option ScopeId) (i : ScopeId) :
    (c.newScope parent).2.scope i = if i = c.scopes.size then ⟨parent, .empty⟩ else c.scope i := by
  unfold newScope scope
  rw [Array.getElem?_push]
  split <;> rfl

theorem Nested.newScope (nested : c.Nested) {parent : Option ScopeId}
    (inside : ∀ p ∈ parent, p < c.scopes.size) : (c.newScope parent).2.Nested where
  earlier i p is := by
    rw [scope_newScope] at is
    split at is
    · next last => exact last ▸ inside p is
    · exact nested.earlier i p is
  placed id i has := by
    have before := nested.placed id i has
    show i < (c.scopes.push _).size
    rw [Array.size_push]
    exact Nat.lt_succ_of_lt before

theorem Nested.setNodeScope (nested : c.Nested) (id : NodeId) {scope : ScopeId}
    (inside : scope < c.scopes.size) : (c.setNodeScope id scope).Nested where
  earlier := nested.earlier
  placed other i has := by
    rw [nodeScope?_setNodeScope] at has
    split at has
    · cases has
      exact inside
    · exact nested.placed other i has

theorem Nested.register (nested : c.Nested) {scope : ScopeId} {name : String} {value : Value}
    (registers : c.register scope name value = some d) : d.Nested := by
  obtain rfl := eq_of_register registers
  have parent : ∀ i, (({ c with scopes := c.scopes.modify scope fun s =>
      { s with names := s.names.insert name value } } : Context).scope i).parent =
        (c.scope i).parent := by
    intro i
    unfold Context.scope
    rw [Array.getElem?_modify]
    split
    · cases c.scopes[i]? <;> rfl
    · rfl
  refine ⟨fun i p is => nested.earlier i p (parent i ▸ is), fun id i has => ?_⟩
  show i < (c.scopes.modify _ _).size
  rw [Array.size_modify]
  exact nested.placed id i has

theorem Nested.grows (nested : c.Nested) (grows : c.Grows d) : d.Nested := by
  cases grows with
  | opened parent inside => exact nested.newScope inside
  | placed id inside => exact nested.setNodeScope id inside
  | registered registers => exact nested.register registers
  | aside scopes nodeScopes =>
    refine ⟨fun i p is => nested.earlier i p ?_, fun id i has => ?_⟩
    · rwa [scope, scopes] at is
    · rw [scopes]
      exact nested.placed id i (by rwa [nodeScope?, nodeScopes] at has)

theorem Built.nested (built : c.Built) : c.Nested := by
  induction built with
  | start rootElement tolerant around => exact nested_start rootElement tolerant around
  | grown _ grows ih => exact ih.grows grows

/-- The scope around a scope. -/
def outer? (c : Context) (i : ScopeId) : Option ScopeId := (c.scope i).parent

/-- As many steps as there are scopes up to a place are enough for a look-up. -/
theorem Nested.findNameFrom_eq (nested : c.Nested) (outward : Trail c.outer? i trail) (name : String)
    {fuel : Nat} (enough : i < fuel) :
    c.findNameFrom name fuel i = (i :: trail).findSome? fun j => (c.scope j).names.get? name := by
  induction outward generalizing fuel with
  | @ends i last =>
    obtain ⟨fuel, rfl⟩ := Nat.exists_eq_succ_of_ne_zero (Nat.ne_zero_of_lt enough)
    rw [findNameFrom, List.findSome?_cons, show (c.scope i).parent = none from last]
    cases (c.scope i).names.get? name <;> rfl
  | @goesOn i p _ next _ ih =>
    obtain ⟨fuel, rfl⟩ := Nat.exists_eq_succ_of_ne_zero (Nat.ne_zero_of_lt enough)
    have less : p < fuel := Nat.lt_of_lt_of_le (nested.earlier i p next) (Nat.le_of_lt_succ enough)
    rw [findNameFrom, List.findSome?_cons, show (c.scope i).parent = some p from next, ← ih less]
    cases (c.scope i).names.get? name <;> rfl

/-- **The walk outwards comes to an end**, and a name is found in the first scope on the way that has
it. -/
structure LooksOutward (c : Context) : Prop where
  earlier : ∀ i p, (c.scope i).parent = some p → p < i
  nearest : ∀ i < c.scopes.size, ∃ trail, Trail c.outer? i trail ∧ (i :: trail).Nodup ∧
    ∀ name, c.findName i name = (i :: trail).findSome? fun j => (c.scope j).names.get? name

theorem Built.looksOutward (built : c.Built) : c.LooksOutward where
  earlier := built.nested.earlier
  nearest i inside := by
    obtain ⟨trail, outward⟩ := exists_trail built.nested.earlier i
    exact ⟨trail, outward, outward.nodup built.nested.earlier,
      fun name => built.nested.findNameFrom_eq outward name inside⟩

end Context

/-! ## Changes of a load -/

namespace LoadState

/-- One change of what the walks go by. Anything else that happens is no change of that. -/
inductive Changes (s : LoadState) : LoadState → Prop
  | detached (id : NodeId) : Changes s { s with tree := s.tree.detach id }
  | rewritten (id : NodeId) (attributes : List Attribute) :
    Changes s { s with tree := s.tree.setAttributes id attributes }
  | rescoped {c : Context} (grows : s.context.Grows c) : Changes s { s with context := c }
  | aside {t : LoadState} (tree : t.tree = s.tree) (scopes : t.context.scopes = s.context.scopes)
    (nodeScopes : t.context.nodeScopes = s.context.nodeScopes) : Changes s t

/-- A state that a load comes to by single changes. -/
abbrev Becomes : LoadState → LoadState → Prop := Relation.ReflTransGen Changes

variable {s u : LoadState} {t : NodeTree}

theorem Becomes.worked (becomes : s.Becomes u) (worked : t.Worked s.tree) : t.Worked u.tree := by
  induction becomes with
  | refl => exact worked
  | tail _ change ih =>
    cases change with
    | detached id => exact ih.detached id
    | rewritten id attributes => exact ih.rewritten id attributes
    | rescoped _ => exact ih
    | aside tree => exact tree ▸ ih

theorem Becomes.built (becomes : s.Becomes u) (built : s.context.Built) : u.context.Built := by
  induction becomes with
  | refl => exact built
  | tail _ change ih =>
    cases change with
    | detached id => exact ih
    | rewritten id attributes => exact ih
    | rescoped grows => exact ih.grown grows
    | aside _ scopes nodeScopes => exact ih.grown (.aside scopes nodeScopes)

end LoadState

namespace Load

variable {env : Environment} {s t : LoadState} {α β : Type}

/-- A step goes by single changes from every state with scopes as loads make them, also if it
fails. -/
def Changing (step : Load α) : Prop := ∀ s : LoadState, s.context.Built → s.Becomes (step.start s).2

theorem frame_becomes : HeapFrame LoadState.Becomes where
  refl _ := .refl
  trans _ _ _ := .trans
  heap _ _ := .single (.aside rfl rfl rfl)
  passed _ _ := .single (.aside rfl rfl rfl)
  recorded _ _ _ := .single (.aside rfl rfl rfl)

theorem Stays.changing {step : Load α} (stays : Stays LoadState.Becomes step) : Changing step :=
  fun s _ => (stays s).related

theorem Changing.bind {step : Load α} {next : α → Load β} (first : Changing step)
    (second : ∀ a, Changing (next a)) : Changing (step >>= next) := by
  intro s built
  have becomes := first s built
  rw [start_bind]
  rcases ran : step.start s with ⟨error | a, t⟩ <;> rw [ran] at becomes
  · exact becomes
  · exact becomes.trans (second a t (becomes.built built))

theorem changing_forM_of_mem {step : α → Load Unit} {list : List α}
    (each : ∀ a ∈ list, Changing (step a)) : Changing (list.forM step) := by
  induction list with
  | nil => exact fun _ _ => .refl
  | cons a rest ih =>
    obtain ⟨here, later⟩ := List.forall_mem_cons.1 each
    exact here.bind fun _ => ih later

theorem changing_forM {step : α → Load Unit} (each : ∀ a, Changing (step a)) (list : List α) :
    Changing (list.forM step) := changing_forM_of_mem fun a _ => each a

theorem changing_pure (a : α) : Changing (pure a : Load α) := fun _ _ => .refl

theorem changing_recover (error : LoadError) : Changing (recover error) := by
  intro s _
  rw [start_recover, Context.recover]
  split
  case h_1 context passes =>
    split at passes
    · cases passes
      exact .single (.aside rfl rfl rfl)
    · cases passes
  case h_2 => exact .refl

/-! ### The document -/

theorem changing_expandAttributes (id : NodeId) (rest : List Attribute) :
    ∀ done, Changing (expandAttributes env id done rest) := by
  induction rest with
  | nil => exact fun done s _ => .single (.rewritten id done)
  | cons a rest ih =>
    intro done s built
    rw [expandAttributes, start_get_bind]
    cases s.tree.expandAttribute env.extensions id a with
    | ok a => exact ih _ s built
    | error error =>
      have rewrites : Changing (modifyTree (·.setAttributes id (done ++ a :: rest))) :=
        fun s _ => .single (.rewritten id _)
      exact (rewrites.bind fun _ => (changing_recover error).bind fun _ => ih done) s built

theorem changing_expandMarkup (env : Environment) : Changing (expandMarkup env) := by
  intro s built
  refine changing_forM (fun id s built => ?_) _ s built
  rw [expandNode, start_get_bind]
  split
  · exact .refl
  · exact changing_expandAttributes id _ [] s built

/-- Pruning detaches nodes one by one, and then takes attributes from those that are left. -/
theorem becomes_prune (s : LoadState) : s.Becomes { s with tree := s.tree.prune } := by
  have folded : ∀ (change : NodeTree → NodeId → NodeTree),
      (∀ (s : LoadState) id, s.Becomes { s with tree := change s.tree id }) →
      ∀ (list : List NodeId) (s : LoadState), s.Becomes { s with tree := list.foldl change s.tree } := by
    intro change each list
    induction list with
    | nil => exact fun _ => .refl
    | cons id rest ih => exact fun s => (each s id).trans (ih { s with tree := change s.tree id })
  unfold NodeTree.prune
  split
  · exact .refl
  · have detached := folded NodeTree.detach (fun s id => .single (.detached id))
      ((s.tree.preorder s.tree.isIgnorableNode).filter s.tree.isPrunable) s
    exact detached.trans (folded NodeTree.pruneAttributes (fun s id => .single (.rewritten id _))
      s.tree.pruneNodes.reachable { s with tree := s.tree.pruneNodes })

/-! ### Scopes -/

/-- Giving a node its scope. Scopes that are open stay open. -/
theorem changing_assignScope {rootScope : ScopeId} {opened : Table NodeId ScopeId} (id : NodeId)
    (built : s.context.Built) (first : rootScope < s.context.scopes.size)
    (inside : ∀ template i, opened.get? template = some i → i < s.context.scopes.size) :
    ∃ opened' t, (assignScope env rootScope opened id).start s = (.ok opened', t) ∧ s.Becomes t ∧
      s.context.scopes.size ≤ t.context.scopes.size ∧
      ∀ template i, opened'.get? template = some i → i < t.context.scopes.size := by
  unfold assignScope
  rw [start_get_bind]
  cases (s.node id).parent with
  | none => exact ⟨opened, s, rfl, .refl, Nat.le_refl _, inside⟩
  | some parent =>
    dsimp only
    have around : (s.context.nodeScope? parent).getD rootScope < s.context.scopes.size := by
      cases has : s.context.nodeScope? parent with
      | none => exact first
      | some i => exact built.nested.placed parent i has
    split
    · unfold contentScope
      cases open? : opened.get? parent with
      | some i => exact ⟨opened, _, rfl, .single (.rescoped (.placed id (inside parent i open?))),
          Nat.le_refl _, inside⟩
      | none =>
        have size : ((s.context.newScope
            (some ((s.context.nodeScope? parent).getD rootScope))).2).scopes.size =
              s.context.scopes.size + 1 := Array.size_push _
        refine ⟨opened.insert parent s.context.scopes.size, _, rfl, ?_, ?_, fun template i is => ?_⟩
        · have new : s.context.scopes.size < ((s.context.newScope
              (some ((s.context.nodeScope? parent).getD rootScope))).2).scopes.size :=
            size ▸ Nat.lt_succ_self _
          refine .tail (.single (.rescoped (.opened (some _) ?_))) (.rescoped (.placed id new))
          rintro _ ⟨⟩
          exact around
        · exact size ▸ Nat.le_succ _
        · refine size ▸ ?_
          rcases Table.get?_insert is with ⟨-, rfl⟩ | before
          · exact Nat.lt_succ_self _
          · exact Nat.lt_succ_of_lt (inside template i before)
    · exact ⟨opened, _, rfl, .single (.rescoped (.placed id around)), Nat.le_refl _, inside⟩

theorem changing_assignScopes (env : Environment) : Changing (assignScopes env) := by
  intro s built
  -- The scope of the outermost element is new.
  let first := ((s.context.newScope none).2).setNodeScope NodeTree.root s.context.scopes.size
  have size : s.context.scopes.size < first.scopes.size :=
    Nat.lt_of_lt_of_eq (Nat.lt_succ_self _) (Array.size_push _).symm
  have opens : s.Becomes { s with context := first } :=
    .tail (.single (.rescoped (.opened none nofun))) (.rescoped (.placed NodeTree.root size))
  obtain ⟨_, t, ran, becomes, -⟩ :
      ∃ opened t, (s.tree.reachable.foldlM (assignScope env s.context.scopes.size) .empty).start
          { s with context := first } = (.ok opened, t) ∧ s.Becomes t ∧
        s.context.scopes.size < t.context.scopes.size ∧
        ∀ template i, opened.get? template = some i → i < t.context.scopes.size := by
    refine foldlM_along (P := fun _ (opened : Table NodeId ScopeId) t => s.Becomes t ∧
      s.context.scopes.size < t.context.scopes.size ∧
      ∀ template i, opened.get? template = some i → i < t.context.scopes.size)
      (fun _ id _ opened t _ holds => ?_) ⟨opens, size, nofun⟩
    obtain ⟨becomes, first, inside⟩ := holds
    obtain ⟨opened', u, ran, further, more, inside'⟩ :=
      changing_assignScope id (becomes.built built) first inside
    exact ⟨opened', u, ran, becomes.trans further, Nat.lt_of_lt_of_le first more, inside'⟩
  have run : ((assignScopes env).start s).2 = t := by
    rw [assignScopes, start_get_bind, Context.newScope]
    show (((set { s with context := first } : Load Unit) >>= fun _ =>
      s.tree.reachable.foldlM (assignScope env s.context.scopes.size) Table.empty >>=
        fun _ => pure ()).start s).2 = _
    rw [start_bind_of_ok (start_set s { s with context := first }), start_bind_of_ok ran]
    rfl
  rw [run]
  exact becomes

/-! ### Values and names -/

theorem changing_settleMade (made : Made) : Changing (settleMade made) := by
  cases made with
  | scalar value => exact changing_pure value
  | object o => exact (stays_alloc frame_becomes o).changing.bind fun id => changing_pure (Value.object id)

theorem changing_setValue (id : NodeId) (value : Value) : Changing (setValue id value) := by
  intro s _
  rw [start_setValue]
  split
  · exact .refl
  · exact .single (.aside rfl rfl rfl)

theorem changing_adoptRoot (id : ObjectId) : Changing (adoptRoot id) :=
  fun _ _ => .single (.aside rfl rfl rfl)

/-- A node that cannot be created is detached. -/
theorem changing_createNode (id : NodeId) : Changing (createNode env id) := by
  intro s built
  rw [createNode, start_get_bind]
  cases s.make env id with
  | ok made =>
    refine (changing_settleMade made).bind (fun value => ?_) s built
    split
    · split
      · exact (changing_adoptRoot _).bind fun _ => changing_setValue id _
      · exact changing_setValue id value
    · exact changing_setValue id value
  | error error =>
    have detaches : Changing (modifyTree (·.detach id)) := fun _ _ => .single (.detached id)
    dsimp only
    split
    · exact .refl
    · exact (changing_recover error).bind (fun _ => detaches) s built

theorem changing_createValues (env : Environment) : Changing (createValues env) := by
  intro s built
  refine changing_forM (fun id s built => ?_) _ s built
  rw [createValue, start_get_bind]
  split
  · exact .refl
  · split
    · split
      · exact (changing_setValue _ _).bind (fun _ _ _ => .single (.aside rfl rfl rfl)) s built
      · exact changing_createNode id s built
    · exact changing_createNode id s built

theorem changing_registerNames (env : Environment) : Changing (registerNames env) := by
  intro s built
  refine changing_forM (fun id s built => ?_) _ s built
  rw [registerName, start_get_bind]
  split
  · exact .refl
  · split
    case h_1 registers => exact .single (.rescoped (.registered registers))
    case h_2 => exact changing_recover _ s built

/-- **Every pass behind the linking of parents goes by single changes.** -/
theorem changing_completePass (env : Environment) {pass : Pass} (other : pass ≠ .parentLinking) :
    Changing (completePass env pass) := by
  have run : Changing (runPass env pass) := by
    cases pass with
    | parentLinking => exact absurd rfl other
    | markupExpansion => exact changing_expandMarkup env
    | pruneIgnored => exact fun s _ => becomes_prune s
    | namescoping => exact changing_assignScopes env
    | valueCreation => exact changing_createValues env
    | nameRegistration => exact changing_registerNames env
    | resourceDictionaryFill => exact (stays_fillResources frame_becomes env).changing
    | propertyApplication => exact (stays_applyProperties frame_becomes env).changing
  exact run.bind fun _ _ _ => .single (.aside rfl rfl rfl)

end Load

/-! ## Loads -/

namespace Request

variable {env : Environment} {tolerant : Bool} {h : Heap} {request : Request} {s opened : LoadState}

/-- What is done before the first pass is no change of what the walks go by. -/
theorem changes_opening (ran : (request.opening env).start s = (.ok (), opened)) :
    opened.tree = s.tree ∧ s.context.Grows opened.context := by
  have created : ∀ {t}, (Load.createRoot env).start s = (.ok (), t) →
      t.tree = s.tree ∧ s.context.Grows t.context := by
    intro t ran
    cases known : s.rootInstance with
    | some root =>
      rw [Load.start_createRoot_known known] at ran
      cases ran
      exact ⟨rfl, .aside rfl rfl⟩
    | none =>
      cases takes : s.tree.arguments? NodeTree.root with
      | some holder =>
        rw [Load.start_createRoot_later known takes] at ran
        cases ran
        exact ⟨rfl, .aside rfl rfl⟩
      | none =>
        rw [Load.start_createRoot_new known takes] at ran
        split at ran <;> cases ran
        exact ⟨rfl, .aside rfl rfl⟩
  cases request with
  | create markup => exact created ran
  | loadInto target markup =>
    cases ran
    exact ⟨rfl, .aside rfl rfl⟩
  | instantiate template => exact created ran

theorem built_initial (begins : request.initial tolerant h = .ok s) : s.context.Built := by
  unfold initial at begins
  repeat' split at begins
  all_goals cases begins
  all_goals exact .start _ _ _

/-- The state of a load, which has been prepared for its first pass, when parents are linked. -/
def linked (env : Environment) (opened : LoadState) : LoadState :=
  ((Load.completePass env .parentLinking).start opened).2

/-- A load links the parents first, and then runs the other passes. -/
theorem start_steps_linked (opens : (request.opening env).start s = (.ok (), opened)) :
    (request.steps env).start s =
      (Pass.all.tail.forM (Load.completePass env)).start (linked env opened) := by
  have steps : (request.steps env).start s =
      (request.opening env >>= fun _ => Load.runPasses env).start s := by
    cases request <;> rfl
  rw [steps, Load.start_bind_of_ok opens]
  rfl

/--
**Walks upwards end at the outermost node, and look-ups of names at the outermost scope.** Take a
load of a document as it has been read, or of a subtree as it has been taken out of a tree. From the
linking of parents on, it goes by single changes, through every number of further passes and also if
one of them fails. In every state that such changes lead to, pruned and failed elements having been
detached or not, the walk from any node ends and meets no node twice, and from a node that can be
reached it goes from parent to parent, each of which lists the one before it, to the outermost one.

The scopes of all these states are made one inside the other. In any context with scopes made in
this way a scope is inside an earlier one, and a name is found in the first scope on the way outwards
that has it.
-/
theorem leads_upward (begins : request.initial tolerant h = .ok s) (original : s.tree.Original)
    (opens : (request.opening env).start s = (.ok (), opened)) :
    (request.steps env).start s =
      (Pass.all.tail.forM (Load.completePass env)).start (linked env opened) ∧
    (∀ n, (linked env opened).Becomes
      (((Pass.all.tail.take n).forM (Load.completePass env)).start (linked env opened)).2) ∧
    (∀ u, (linked env opened).Becomes u → u.tree.LeadsUp ∧ u.context.Built) ∧
    ∀ c : Context, c.Built → c.LooksOutward := by
  obtain ⟨tree, grows⟩ := changes_opening opens
  have worked : s.tree.Worked (linked env opened).tree := tree ▸ .linked
  have built : (linked env opened).context.Built :=
    ((built_initial begins).grown grows).grown (.aside rfl rfl)
  have others : ∀ pass ∈ Pass.all.tail, pass ≠ .parentLinking := by decide
  refine ⟨start_steps_linked opens, fun n => ?_, fun u becomes => ?_, fun _ => Context.Built.looksOutward⟩
  · refine Load.changing_forM_of_mem (fun pass mem => ?_) _ built
    exact Load.changing_completePass env (others pass (List.mem_of_mem_take mem))
  · exact ⟨((becomes.worked worked).intact original).leadsUp, becomes.built built⟩

/-- A tolerant load leaves out an element of an unknown type. The node inside it still knows the way
to the outermost one. -/
theorem leads_upward_omitted :
    let text := "<StackLayout xmlns=\"http://xamarin.com/schemas/2014/forms\">" ++
      "<Nope><Label/></Nope><Label/></StackLayout>"
    let env : Environment := ⟨.controls, .builtIn⟩
    let element (localName : String) (column : Nat) (children : List NodeId) : Node :=
      ⟨⟨.element, ⟨formsNamespace, localName⟩, [], [], [], ⟨1, column⟩⟩, children, none⟩
    let t : NodeTree := ⟨#[
      ⟨⟨.root, ⟨formsNamespace, "StackLayout"⟩, [], [], [("", formsNamespace)], ⟨1, 1⟩⟩, [1, 3], none⟩,
      element "Nope" 60 [2], element "Label" 66 [], element "Label" 81 []], []⟩
    let s := LoadState.initial t none (.start none true []) .empty
    let opened := ((Load.createRoot env).start s).2
    let last := ((Request.steps env (.create text)).start s).2
    (Request.initial true .empty (.create text) = .ok s ∧ s.tree.Original ∧
      (Request.opening env (.create text)).start s = (.ok (), opened)) ∧
    last.tree.reachable = [0, 3] ∧ last.tree.ancestors 2 = [1, 0] ∧ last.tree.ancestors 3 = [0] ∧
    last.tree.LeadsUp ∧ last.context.LooksOutward := by
  intro text env element t s opened last
  have read : NodeTree.read text = .ok t := NodeTree.read_of_toOption (by decide +kernel)
  have begins : Request.initial true .empty (.create text) = .ok s := by
    rw [initial, read]
  have ok : ((Load.createRoot env).start s).1 = .ok () := by decide +kernel
  have opens : (Request.opening env (.create text)).start s = (.ok (), opened) :=
    Load.start_of_ok ok
  obtain ⟨reachable, inside, other⟩ : last.tree.reachable = [0, 3] ∧
      last.tree.ancestors 2 = [1, 0] ∧ last.tree.ancestors 3 = [0] := by decide +kernel
  obtain ⟨run, becomes, leads, looks⟩ := leads_upward begins (.read read) opens
  have comes : (linked env opened).Becomes last := by
    have all := becomes 7
    have is : last = ((Pass.all.tail.forM (Load.completePass env)).start (linked env opened)).2 :=
      congrArg Prod.snd run
    exact is ▸ all
  obtain ⟨up, built⟩ := leads last comes
  exact ⟨⟨begins, .read read, opens⟩, reachable, inside, other, up, looks _ built⟩

end Request

end MarkupLoader
