import MarkupLoader.Proofs.Copies
import MarkupLoader.Proofs.Names
import MarkupLoader.Schema.Controls

/-!
# Lexical scope

A static resource is looked up in the objects that enclose the place where it is asked for: those of
the node and of the nodes above it (`NodeTree.Above`), and if the place is inside a template, those
above the template in its document, and so on outwards.

* **What a template remembers** are the objects of the nodes above it, and then the objects around
  the document that it stands in (`Populates.remembers`). One load records them.
* **What encloses a document** (`Request.Encloses`) is said along the templates that have been
  instantiated one inside the other, from a document that is loaded to the innermost content. Another
  load finds the objects that one has recorded, as long as they are alive (`Encloses.around`).

So the nearest object that has a resource (`Heap.Nearest`) is the same as in the text of the
document, through any depth of templates.

Main results: `Populates.remembers`, `Encloses.around`, `static_resource_lexical`.
-/

namespace MarkupLoader

/-! ## What has a resource -/

namespace Heap

/-- An object has a value under a key: as an entry of its own, if it is a dictionary, or else as an
entry of the other object that it has as its resources. -/
inductive HasResource (h : Heap) (id : ObjectId) (key : String) (value : Value) : Prop
  | own (kind : h.kind id = .dictionary) (entry : h.entry? id key = some value)
  | resources {dictionary : ObjectId} (lacks : h.kind id = .dictionary → h.entry? id key = none)
    (held : h.get? id resourcesProperty = some (.object dictionary)) (other : dictionary ≠ id)
    (entry : h.entry? dictionary key = some value)

/-- The first of some objects that has a value under a key has that value. -/
inductive Nearest (h : Heap) (key : String) (value : Value) : List ObjectId → Prop
  | here {id : ObjectId} {further : List ObjectId} (has : h.HasResource id key value) :
    Nearest h key value (id :: further)
  | further {id : ObjectId} {others : List ObjectId}
    (lacks : ∀ other, ¬ h.HasResource id key other) (later : Nearest h key value others) :
    Nearest h key value (id :: others)

variable {h : Heap} {id : ObjectId} {key : String} {value : Value}

theorem resource?_eq_some_iff : h.resource? id key = some value ↔ h.HasResource id key value := by
  unfold resource?
  dsimp only
  constructor
  · intro found
    rcases Option.or_eq_some_iff.1 found with own | ⟨lacks, outer⟩
    · split at own
      · exact .own ‹_› own
      · cases own
    · have lacks : h.kind id = .dictionary → h.entry? id key = none := by
        intro kind
        rwa [if_pos kind] at lacks
      split at outer
      · split at outer
        · cases outer
        · exact .resources lacks ‹_› ‹_› outer
      · cases outer
  · intro has
    cases has with
    | own kind entry => rw [if_pos kind, entry, Option.some_or]
    | resources lacks held other entry =>
      have none_own : (if h.kind id = .dictionary then h.entry? id key else none) = none := by
        split
        · exact lacks ‹_›
        · rfl
      rw [none_own, Option.none_or, held]
      dsimp only
      rw [if_neg other, entry]

theorem resource?_eq_none_iff :
    h.resource? id key = none ↔ ∀ value, ¬ h.HasResource id key value := by
  rw [Option.eq_none_iff_forall_ne_some]
  exact forall_congr' fun value => not_congr resource?_eq_some_iff

/-- What is found going outwards is what the nearest object has. -/
theorem findSome?_eq_some_iff (objects : List ObjectId) :
    (objects.findSome? fun id => h.resource? id key) = some value ↔
      h.Nearest key value objects := by
  induction objects with
  | nil => exact ⟨nofun, nofun⟩
  | cons id others ih =>
    rw [List.findSome?_cons]
    cases own : h.resource? id key with
    | some found =>
      have has := resource?_eq_some_iff.1 own
      constructor
      · rintro ⟨⟩
        exact .here has
      · intro nearest
        cases nearest with
        | here has' => exact own.symm.trans (resource?_eq_some_iff.2 has')
        | further lacks => exact absurd has (lacks found)
    | none =>
      have lacks := resource?_eq_none_iff.1 own
      refine ih.trans ⟨.further lacks, fun nearest => ?_⟩
      cases nearest with
      | here has => exact absurd has (lacks value)
      | further _ later => exact later

/-- Nothing is found going outwards if no object has the resource. -/
theorem findSome?_eq_none_iff (objects : List ObjectId) :
    (objects.findSome? fun id => h.resource? id key) = none ↔
      ∀ id ∈ objects, ∀ value, ¬ h.HasResource id key value := by
  rw [List.findSome?_eq_none_iff]
  exact forall₂_congr fun _ _ => resource?_eq_none_iff

end Heap

/-! ## The nodes above a node -/

namespace NodeTree

/-- The nodes above a node, nearest first: each lists the one before it as a child, up to the
outermost one. -/
inductive Above (t : NodeTree) : NodeId → List NodeId → Prop
  | top : Above t root []
  | child {p c : NodeId} {above : List NodeId} (outer : Above t p above)
    (listed : c ∈ (t.node p).children) : Above t c (p :: above)

variable {t : NodeTree} {id : NodeId} {above : List NodeId}

theorem Above.reaches (path : t.Above id above) : t.Reaches (fun _ => false) root id := by
  induction path with
  | top => exact .top
  | child _ listed ih => exact .child ih rfl listed

theorem exists_above (reached : t.Reaches (fun _ => false) root id) :
    ∃ above, t.Above id above := by
  induction reached with
  | top => exact ⟨[], .top⟩
  | child _ _ listed ih =>
    obtain ⟨above, path⟩ := ih
    exact ⟨_, .child path listed⟩

/-- They are its ancestors. -/
theorem Above.ancestors (path : t.Above id above) (proper : t.Proper) (linked : t.Linked) :
    t.ancestors id = above := by
  induction path with
  | top =>
    unfold NodeTree.ancestors
    cases t.size with
    | zero => rfl
    | succ depth => rw [ancestorsFrom, linked.root]
  | child outer listed ih => rw [linked.ancestors_child proper outer.reaches listed, ih]

end NodeTree

/-! ## What a template remembers -/

namespace Heap

/-- The objects that a template remembers, if it keeps anything. -/
def Remembers (h : Heap) (n : ObjectId) (around : List ObjectId) : Prop :=
  ∀ content, (h.object n).template = some content → content.outerScope = around

/-- What an object keeps and remembers is the same. -/
def SameTemplate (n : ObjectId) (h after : Heap) : Prop :=
  (after.object n).template = (h.object n).template

variable {h : Heap} {n : ObjectId}

theorem sameTemplate_modify (h : Heap) (id : ObjectId) {change : Object → Object}
    (same : ∀ o, (change o).template = o.template) : SameTemplate n h (h.modify id change) := by
  unfold SameTemplate
  by_cases here : n = id
  · by_cases inside : n < h.size
    · rw [here, object_modify change (here ▸ inside), same]
    · have outside : h.size ≤ n := Nat.le_of_not_lt inside
      rw [object_of_size_le outside, object_of_size_le ((size_modify h id change).symm ▸ outside)]
  · rw [object_modify_of_ne change here]

theorem writing_sameTemplate (n : ObjectId) : Writing (SameTemplate n) where
  refl _ := rfl
  trans _ _ _ first second := Eq.trans second first
  set h id _ _ := sameTemplate_modify h id fun _ => rfl
  item h id _ := sameTemplate_modify h id fun _ => rfl

theorem Remembers.same {after : Heap} {around : List ObjectId} (remembers : h.Remembers n around)
    (same : SameTemplate n h after) : after.Remembers n around :=
  fun content keeps => remembers content (same.symm.trans keeps)

/-- A template remembers what it is told to. -/
theorem remembers_modify (h : Heap) (n : ObjectId) (around : List ObjectId) :
    (h.modify n fun o => { o with template := o.template.map fun t =>
      { t with outerScope := around } }).Remembers n around := by
  intro content keeps
  by_cases inside : n < h.size
  · rw [object_modify _ inside] at keeps
    obtain ⟨kept, -, rfl⟩ := Option.map_eq_some_iff.1 keeps
    rfl
  · rw [object_of_size_le (by rw [size_modify]; exact Nat.le_of_not_lt inside)] at keeps
    cases keeps

end Heap

namespace Load

variable {env : Environment} {t u : LoadState} {id : NodeId} {n : ObjectId}

/-- What comes around a node is the same as long as only the heap changes. -/
theorem outerScope_of_settled {H : Heap → Heap → Prop} (settled : t.Settled H u)
    (kept : t.KeepsScopes u) (id : NodeId) :
    (u.site env id).outerScope = (t.site env id).outerScope := by
  show (u.tree.ancestors id).filterMap u.context.object? ++ u.context.outerScope = _
  rw [settled.tree, settled.object?, kept.outerScope]
  rfl

/-- The node that has a template lets it remember what is around the node. -/
theorem remembers_applyNode (has : t.context.object? id = some n)
    (kind : t.heap.kind n = .template) :
    ((applyNode env id).start t).2.heap.Remembers n (t.site env id).outerScope := by
  have writing := Heap.writing_sameTemplate n
  have applies : Settles (Heap.SameTemplate n) (do
      applyAttributes env id n
      applyChildren env id n) :=
    fun s => (settles_applyAttributes (writing.to n) env id s).bind writing.toChains
      fun _ => settles_applyChildren (writing.to n) env id
  have told : (captureScope n (t.site env id).outerScope).start t = (.ok (), { t with
      heap := t.heap.modify n fun o => { o with template := o.template.map fun t' =>
        { t' with outerScope := (t.site env id).outerScope } } }) := rfl
  rw [applyNode, start_get_bind, has]
  dsimp only
  rw [if_pos kind, start_bind_of_ok told]
  exact (Heap.remembers_modify _ _ _).same (applies _).heap

/-- Once the node has been applied that has a template, the template remembers what is around it. -/
theorem remembers_applyNodes {nodes : List NodeId} (inside : n < t.heap.size)
    (has : t.context.object? id = some n) (kind : t.heap.kind n = .template)
    (own : ∀ other, t.context.object? other = some n → other = id)
    (listed : id ∈ nodes ∨ t.heap.Remembers n (t.site env id).outerScope)
    (ran : (nodes.forM (applyNode env)).start t = (.ok (), u)) :
    u.heap.Remembers n (t.site env id).outerScope := by
  -- Along the nodes; the template of no other node is touched.
  induction nodes generalizing t with
  | nil =>
    cases ran
    exact listed.resolve_left List.not_mem_nil
  | cons node rest ih =>
    obtain ⟨_, v, first, ran⟩ := ok_of_start_bind ran
    have settled := (settles_applyNode env Heap.assigning_retains node).ran first
    have kept := (stays_applyNode frame_keepsScopes.toHeapFrame env node).ran first
    have around : (v.site env id).outerScope = (t.site env id).outerScope :=
      outerScope_of_settled settled kept id
    have objects : ∀ other, v.context.object? other = t.context.object? other :=
      congrFun settled.object?
    have kind' : v.heap.kind n = .template := by
      rw [← kind]
      exact congrArg TypeDescriptor.kind (settled.heap.descriptor n inside)
    have now : id ∈ rest ∨ v.heap.Remembers n (v.site env id).outerScope := by
      rw [around]
      by_cases here : node = id
      · subst here
        have remembers := @remembers_applyNode env _ _ _ has kind
        rw [first] at remembers
        exact .inr remembers
      · rcases listed with mem | remembers
        · exact .inl ((List.mem_cons.1 mem).resolve_left (Ne.symm here))
        · have untouched : SettlesAt (Heap.SameTemplate n) t (applyNode env node) := by
            have writing := Heap.writing_sameTemplate n
            refine .applyNode env writing.toChains (fun object _ => writing.to object)
              fun object has' around => ?_
            have other : n ≠ object := fun same => here (own node (same ▸ has'))
            exact congrArg Object.template (Heap.object_modify_of_ne _ other)
          unfold SettlesAt at untouched
          rw [first] at untouched
          exact .inr (remembers.same untouched.heap)
    rw [← around]
    refine ih (Nat.lt_of_lt_of_le inside settled.heap.size) ((objects id).trans has) kind'
      (fun other hasToo => own other ((objects other).symm.trans hasToo)) now ran

section Remembering

variable {tolerant : Bool} {s before created filled last : LoadState} {above : List NodeId}
  (populates : Populates env tolerant s before created filled) (proper : s.tree.Proper)
  (ran : (furnish env).start filled = (.ok (), last))

include populates proper ran

/-- **A template remembers the objects above it**, and then those around the document. -/
theorem Populates.remembers (fresh : s.Fresh) (has : last.context.object? id = some n)
    (kind : last.heap.kind n = .template) (path : last.tree.Above id above) :
    last.heap.Remembers n (above.filterMap last.context.object? ++ s.context.outerScope) := by
  obtain ⟨properTree, linked⟩ := populates.proper proper
  have whole := settled_of_furnish ran
  have is : filled.context.object? id = some n := by rw [← whole.object?, has]
  obtain ⟨inside, -⟩ := populates.of_object is
  obtain ⟨t, v, fills, applied, rfl⟩ := ok_of_furnish ran
  have settled := (settles_fill Heap.filling_retains env).ran fills
  have insideThen : n < t.heap.size := Nat.lt_of_lt_of_le inside settled.heap.size
  have kindThen : t.heap.kind n = .template := by
    have properties := (settles_applyProperties env Heap.assigning_retains).ran applied
    rw [← kind]
    exact congrArg TypeDescriptor.kind (properties.heap.descriptor n insideThen).symm
  have listed : id ∈ t.loadedUpwards env := by
    obtain ⟨value, held, -⟩ := Option.bind_eq_some_iff.1 is
    have mem := populates.loaded_of_value proper (whole.tree ▸ path.reaches) held
    unfold LoadState.loadedUpwards LoadState.isTemplate LoadState.node
    rw [settled.tree]
    exact (NodeTree.mem_postorder properTree).2 ((NodeTree.mem_preorder properTree).1 mem)
  have remembers := remembers_applyNodes insideThen
    ((congrFun settled.object? id).trans is) kindThen
    (fun other hasToo => populates.distinct
      ((congrFun settled.object? other).symm.trans hasToo) is) (.inl listed) applied
  have around : (t.site env id).outerScope =
      above.filterMap v.context.object? ++ s.context.outerScope := by
    have outer := (populates.named_of_furnished proper fresh fills).outerScope
    show (t.tree.ancestors id).filterMap t.context.object? ++ t.context.outerScope = _
    rw [outer, populates.outerScope, settled.object?, settled.tree, ← whole.tree,
      path.ancestors (whole.tree ▸ properTree) (whole.tree ▸ linked)]
    rw [show v.context.object? = filled.context.object? from whole.object?]
  rwa [around] at remembers

omit proper in
/-- What a template keeps that a node has is a proper document, or was kept before by the object that
the load is about. -/
theorem Populates.proper_content {h : Heap} {request : Request} (opens : request.Opens h s)
    (has : last.context.object? id = some n) {content : Template}
    (keeps : (last.heap.object n).template = some content) :
    content.tree.Proper ∨ ∃ earlier, request.target? = some n ∧
      (h.object n).template = some earlier ∧ earlier.tree = content.tree := by
  have whole := settled_of_furnish ran
  have is : filled.context.object? id = some n := by rw [← whole.object?, has]
  obtain ⟨inside, origin⟩ := populates.of_object is
  have same := whole.heap.content n inside
  rw [keeps] at same
  obtain ⟨earlier, kept, tree⟩ := Option.map_eq_some_iff.1 same.symm
  have tree : earlier.tree = content.tree := tree
  rcases origin with ⟨root, heap⟩ | ⟨u, makes⟩
  · rw [heap] at kept
    rcases opens.rooted n earlier root kept with proper | ⟨target, there⟩
    · exact .inl (tree ▸ proper)
    · exact .inr ⟨earlier, target, there, tree⟩
  · exact .inl (tree ▸ makes.proper kept)

end Remembering

end Load

/-! ## Templates one inside the other -/

namespace Request

/--
**The objects around a document**, nearest first, when one template after the other has been
instantiated, from the document that is loaded to the innermost content. Nothing is around a document
that is loaded from markup. Around the content of a template there are the objects of the nodes above
the template, in the document or the content that contains it, and then what is around that.

In between, other things may happen to the heap, as long as the template still keeps what its load
has left it, and the objects around its content stay alive.
-/
inductive Encloses (env : Environment) : Heap → Request → List ObjectId → Prop
  | create (h : Heap) (markup : String) : Encloses env h (.create markup) []
  | loadInto {h : Heap} {target : ObjectId} (inside : target < h.size)
    (proper : ∀ content, (h.object target).template = some content → content.tree.Proper)
    (markup : String) : Encloses env h (.loadInto target markup) []
  | instantiate {h later : Heap} {request : Request} {around : List ObjectId} {tolerant : Bool}
    {run : Run} {node : NodeId} {above : List NodeId} {template : ObjectId} {content : Template}
    (outer : Encloses env h request around) (ran : request.run env tolerant h = .ok run)
    (ended : run.ended = .ok ()) (path : run.state.tree.Above node above)
    (has : run.state.context.object? node = some template)
    (kind : run.state.heap.kind template = .template)
    (keeps : (run.state.heap.object template).template = some content)
    (still : (later.object template).template = some content)
    (alive : ∀ id ∈ above.filterMap run.state.context.object? ++ around, id ∉ later.dead) :
    Encloses env later (.instantiate template)
      (above.filterMap run.state.context.object? ++ around)

variable {env : Environment} {tolerant : Bool} {h : Heap} {request : Request}
  {around : List ObjectId}

/-- Nothing stands in the way of the load. -/
theorem Encloses.fits (encloses : Encloses env h request around) : request.Fits h ∧
    ∀ target content, request.target? = some target →
      (h.object target).template = some content → content.tree.Proper := by
  induction encloses with
  | create h markup => exact ⟨trivial, nofun⟩
  | loadInto inside proper markup =>
    refine ⟨inside, ?_⟩
    rintro _ content ⟨⟩ keeps
    exact proper content keeps
  | instantiate outer ran ended path has kind keeps still alive ih =>
    obtain ⟨fits, targets⟩ := ih
    obtain ⟨s, populated, goesOn⟩ := populated_of_run ran ended
    obtain ⟨first, before, created, opens, populates⟩ := populated.populates fits
    refine ⟨fun content' keeps' => ?_, nofun⟩
    obtain rfl := Option.some.inj (still.symm.trans keeps')
    rcases populates.proper_content goesOn opens has keeps with
      proper | ⟨earlier, target, there, tree⟩
    · exact proper
    · exact tree ▸ targets _ earlier target there

/-- **What one load records another finds**: the objects around the document of a load are those that
enclose it in the text. -/
theorem Encloses.around_eq (encloses : Encloses env h request around) :
    request.around h = around := by
  induction encloses with
  | create h markup => rfl
  | loadInto inside proper markup => rfl
  | @instantiate h later request around tolerant run node above template content outer ran ended path
      has kind keeps still alive ih =>
    obtain ⟨s, populated, goesOn⟩ := populated_of_run ran ended
    obtain ⟨first, before, created, opens, populates⟩ := populated.populates outer.fits.1
    have remembers := populates.remembers opens.proper goesOn opens.fresh has kind path
    have scope : content.outerScope = above.filterMap run.state.context.object? ++ around := by
      rw [remembers content keeps, opens.outerScope, ih]
    simp only [Request.around, still, scope]
    refine List.filter_eq_self.2 fun id mem => ?_
    simpa using alive id mem

end Request

/-! ## Static resources -/

namespace Extensions

/-- What a static resource comes to, given the value under the key that it asks for. -/
def resourced (key : String) : Option Value → Except EvaluationFault Value
  | some value => .ok value
  | none => .error (.failed s!"StaticResource not found for key {key}")

/-- A static resource gives what is nearest to its place, or fails. -/
theorem ask_staticResource {arguments : Arguments} {services : Services} {key : String}
    (asked : arguments.text services.heap "Key" 0 = .ok key) :
    ask staticResource arguments services = resourced key (services.resource? key) := by
  have gives : staticResource arguments services = match services.resource? key with
      | some value => .ok value
      | none => .error s!"StaticResource not found for key {key}" := by
    unfold staticResource
    rw [asked]
    dsimp only [bind, Except.bind]
    cases services.resource? key <;> rfl
  rw [ask, gives]
  cases services.resource? key <;> rfl

end Extensions

/-- What a static resource comes to if some objects enclose the place, nearest first: what the
nearest of them has, and a failure if and only if none of them has it. -/
structure Heap.Resolves (h : Heap) (objects : List ObjectId) (key : String)
    (outcome : Except EvaluationFault Value) : Prop where
  found : ∀ value, outcome = .ok value ↔ h.Nearest key value objects
  failed : (∃ fault, outcome = .error fault) ↔
    ∀ id ∈ objects, ∀ value, ¬ h.HasResource id key value

theorem Heap.resolves (h : Heap) (objects : List ObjectId) (key : String) :
    h.Resolves objects key
      (Extensions.resourced key (objects.findSome? fun id => h.resource? id key)) := by
  cases is : objects.findSome? fun id => h.resource? id key with
  | some value =>
    have nearest := (findSome?_eq_some_iff objects).1 is
    refine ⟨fun other => ⟨?_, fun nearest' => ?_⟩, ⟨nofun, fun none_has => ?_⟩⟩
    · rintro ⟨⟩
      exact nearest
    · have same := is.symm.trans ((findSome?_eq_some_iff objects).2 nearest')
      exact congrArg Except.ok (Option.some.inj same)
    · have absent := is.symm.trans ((findSome?_eq_none_iff objects).2 none_has)
      cases absent
  | none =>
    refine ⟨fun value => ⟨nofun, fun nearest => ?_⟩,
      ⟨fun _ => (findSome?_eq_none_iff objects).1 is, fun _ => ⟨_, rfl⟩⟩⟩
    have there := is.symm.trans ((findSome?_eq_some_iff objects).2 nearest)
    cases there

namespace Request

variable {env : Environment} {tolerant : Bool} {h : Heap} {request : Request}
  {around : List ObjectId} {t u : LoadState} {id : NodeId} {a : Attribute}

/--
**Static resources are lexically scoped**, through any depth of templates one inside the other.
Wherever an attribute is evaluated in a document that is loaded, or in the innermost content of
templates that have been instantiated one after the other while the objects around them were alive, a
static resource is what the nearest of the enclosing objects has at that moment: the object of the
node, those of the nodes above it, and then those around the document or the content. It fails if and
only if none of them has it.
-/
theorem static_resource_lexical (encloses : Encloses env h request around)
    (furnished : request.Furnished env tolerant h t) (evaluates : Load.Evaluates env t id a u) :
    ∃ above, u.tree.Above id above ∧
      let objects := (id :: above).filterMap u.context.object? ++ around
      (∀ arguments key, arguments.text u.heap "Key" 0 = .ok key →
        u.heap.Resolves objects key
          (Extensions.ask Extensions.staticResource arguments (u.site env id).services)) ∧
      ∀ x key, env.extensions.lookUp x.head = .ok Extensions.staticResource →
        x.args.Only "Key" key →
        u.heap.Resolves objects key (env.extensions.evaluate (u.site env id) x) := by
  obtain ⟨s, populated, fills⟩ := furnished
  obtain ⟨first, before, created, opens, populates⟩ := populated.populates encloses.fits.1
  obtain ⟨proper, linked⟩ := populates.proper opens.proper
  have settled := (Load.settles_fill Heap.filling_retains env).ran fills
  have applied := evaluates.settled Heap.assigning_retains
  have tree : u.tree = s.tree := applied.tree.trans settled.tree
  have reached : s.tree.Reaches (fun _ => false) NodeTree.root id := by
    have loaded := evaluates.loaded
    unfold LoadState.loadedUpwards at loaded
    rw [settled.tree] at loaded
    exact ((NodeTree.mem_postorder proper).1 loaded).all
  obtain ⟨above, path⟩ := NodeTree.exists_above reached
  have outer : u.context.outerScope = around := by
    rw [evaluates.keepsScopes.outerScope,
      (populates.named_of_furnished opens.proper opens.fresh fills).outerScope,
      populates.outerScope, opens.outerScope, encloses.around_eq]
  -- The place looks through its own objects, and then through those around its document.
  have nearest : ∀ key, (u.site env id).services.resource? key =
      ((id :: above).filterMap u.context.object? ++ around).findSome? fun object =>
        u.heap.resource? object key := by
    intro key
    have objects : u.tree.selfAndAncestors id = id :: above := by
      rw [NodeTree.selfAndAncestors, tree, path.ancestors proper linked]
    show ((u.tree.selfAndAncestors id).filterMap u.context.object? ++
      u.context.outerScope).findSome? _ = _
    rw [objects, outer]
    rfl
  have asks : ∀ arguments key,
      arguments.text (u.site env id).services.heap "Key" 0 = .ok key →
      u.heap.Resolves ((id :: above).filterMap u.context.object? ++ around) key
        (Extensions.ask Extensions.staticResource arguments (u.site env id).services) := by
    intro arguments key asked
    rw [Extensions.ask_staticResource asked, nearest]
    exact u.heap.resolves _ key
  refine ⟨above, tree ▸ path, asks, fun x key calls only => ?_⟩
  obtain ⟨arguments, asked, evaluated⟩ :=
    @Extensions.evaluate_of_only _ (u.site env id) _ _ _ _ calls only
  rw [evaluated]
  exact asks arguments key asked

/-- A template inside a template in a layout: a label in the inner one finds what is among the
resources of the layout. -/
theorem static_resource_lexical_templates :
    let env : Environment := ⟨.controls, .builtIn⟩
    let markup := "<StackLayout xmlns=\"http://xamarin.com/schemas/2014/forms\" " ++
      "xmlns:x=\"http://schemas.microsoft.com/winfx/2009/xaml\"><StackLayout.Resources>" ++
      "<x:String x:Key=\"k\">a</x:String></StackLayout.Resources><DataTemplate><DataTemplate>" ++
      "<Label Text=\"\x7bStaticResource k\x7d\"/></DataTemplate></DataTemplate></StackLayout>"
    let resources : QName := ⟨formsNamespace, "StackLayout.Resources"⟩
    let tree : NodeTree := ⟨#[
      ⟨⟨.root, ⟨formsNamespace, "StackLayout"⟩, [], [],
        [("", formsNamespace), ("x", language2009)], ⟨1, 1⟩⟩, [1, 4], none⟩,
      ⟨⟨.property resources, resources, [], [], [], ⟨1, 115⟩⟩, [2], none⟩,
      ⟨⟨.element, ⟨language2009, "String"⟩, [], [⟨⟨language2009, "Key"⟩, .raw "k", ⟨1, 148⟩⟩], [],
        ⟨1, 138⟩⟩, [3], none⟩,
      ⟨⟨.text "a", ⟨"", ""⟩, [], [], [], ⟨1, 158⟩⟩, [], none⟩,
      ⟨⟨.element, ⟨formsNamespace, "DataTemplate"⟩, [], [], [], ⟨1, 194⟩⟩, [5], none⟩,
      ⟨⟨.element, ⟨formsNamespace, "DataTemplate"⟩, [], [], [], ⟨1, 208⟩⟩, [6], none⟩,
      ⟨⟨.element, ⟨formsNamespace, "Label"⟩, [],
        [⟨⟨"", "Text"⟩, .raw "\x7bStaticResource k\x7d", ⟨1, 229⟩⟩], [], ⟨1, 222⟩⟩, [], none⟩], []⟩
    let begin (h : Heap) (content : Template) : LoadState := .initial content.tree none
      (.start none false (content.outerScope.filter fun id => !h.dead.contains id)) h
    let page := Run.ofStep (Loader.createThenRun env) (Loader.unrooted .empty tree false)
    let h := page.state.heap
    let outer := (h.object 1).template.getD default
    let run := Run.ofStep (Loader.createThenRun env) (begin h outer)
    let later := run.state.heap
    let inner := (later.object 3).template.getD default
    let x : Expression := ⟨⟨none, "StaticResource", formsNamespace, "\x7bStaticResource k\x7d"⟩,
      .text none "k" .nil⟩
    let a : Attribute := ⟨⟨"", "Text"⟩, .expression x, ⟨1, 229⟩⟩
    let s := (((instantiate 3).opening env >>= fun _ => Load.populate env).start
      (begin later inner)).2
    let t := (([Pass.nameRegistration, .resourceDictionaryFill].forM
      (Load.completePass env)).start s).2
    NodeTree.read markup = .ok tree ∧ Encloses env later (.instantiate 3) [0] ∧
      (instantiate 3).Furnished env false later t ∧ Load.Evaluates env t 0 a t ∧
      ∃ value, env.extensions.evaluate (t.site env 0) x = .ok value ∧
        t.heap.resource? 0 "k" = some value := by
  intro env markup resources tree begin page h outer run later inner x a s t
  have read : NodeTree.read markup = .ok tree := NodeTree.read_of_toOption (by decide +kernel)
  have kept : ∀ o : Option Template, o.isSome = true → o = some (o.getD default) := by
    intro o some
    cases o with
    | none => cases some
    | some content => rfl
  -- What the passes leave is worked out once.
  obtain ⟨⟨ended, listed, has, hasPage, kind, keeps⟩, ⟨ended', has', kind', keeps', dead, dead'⟩,
    populated, furnished, order, own, plain, attributes, lacks, finds, leaf⟩ :
      (page.ended = .ok () ∧ 4 ∈ (page.state.tree.node NodeTree.root).children ∧
        page.state.context.object? 4 = some 1 ∧ page.state.context.object? 0 = some 0 ∧
        h.kind 1 = .template ∧ (h.object 1).template.isSome = true) ∧
      (run.ended = .ok () ∧ run.state.context.object? 0 = some 3 ∧ later.kind 3 = .template ∧
        (later.object 3).template.isSome = true ∧ h.dead = [] ∧ later.dead = []) ∧
      (((instantiate 3).opening env >>= fun _ => Load.populate env).start (begin later inner)).1 =
        .ok () ∧
      (([Pass.nameRegistration, .resourceDictionaryFill].forM (Load.completePass env)).start s).1 =
        .ok () ∧
      t.loadedUpwards env = [] ++ 0 :: [] ∧ t.context.object? 0 = some 4 ∧
      t.heap.kind 4 = .plain ∧ (t.node 0).attributes = [] ++ a :: [] ∧
      (t.heap.resource? 4 "k").isNone = true ∧ (t.heap.resource? 0 "k").isSome = true ∧
      (t.tree.nodes.toList.all fun n => n.children.isEmpty) = true := by
    decide +kernel
  have ran : (create markup).run env false .empty = .ok page := run_create read
  have ran' : (instantiate 1).run env false h = .ok run := run_instantiate (kept _ keeps)
  have comes : (instantiate 3).Populated env false later s :=
    ⟨begin later inner, initial_instantiate (kept _ keeps'), Load.start_of_ok populated⟩
  have furnishes : (instantiate 3).Furnished env false later t :=
    ⟨s, comes, Load.start_of_ok furnished⟩
  have content := kept _ keeps
  have content' := kept _ keeps'
  clear_value t s run page
  have enclosed : Encloses env h (.instantiate 1) [0] := by
    have step := Encloses.instantiate (.create .empty markup) ran ended (.child .top listed) has kind
      content content (by simp [dead])
    have objects : [NodeTree.root].filterMap page.state.context.object? ++ [] = [0] := by
      rw [List.filterMap_cons, show page.state.context.object? NodeTree.root = some 0 from hasPage]
      rfl
    rwa [objects] at step
  have encloses : Encloses env later (.instantiate 3) [0] :=
    Encloses.instantiate enclosed ran' ended' .top has' kind' content' content' (by simp [dead'])
  have entered : (Load.enterNode env 0 4).start t = (.ok (), t) := by
    rw [Load.enterNode, Load.start_get_bind, if_neg (by rw [plain]; decide)]
    rfl
  have evaluates : Load.Evaluates env t 0 a t :=
    .intro order (Load.start_forM_nil _ t) own entered attributes (Load.start_forM_nil _ t)
  obtain ⟨above, path, -, gives⟩ := static_resource_lexical encloses furnishes evaluates
  obtain rfl : above = [] := by
    -- No node of the innermost content has children.
    cases path with
    | top => rfl
    | @child p _ _ _ listed =>
      have none_there : (t.tree.node p).children = [] := by
        unfold NodeTree.node
        cases there : t.tree.nodes[p]? with
        | none => rfl
        | some n =>
          have mem : n ∈ t.tree.nodes.toList := by
            rw [← Array.getElem?_toList] at there
            exact List.mem_of_getElem? there
          exact List.isEmpty_iff.1 (List.all_eq_true.1 leaf n mem)
      rw [none_there] at listed
      cases listed
  obtain ⟨value, is⟩ := Option.isSome_iff_exists.1 finds
  have nearest : t.heap.Nearest "k" value ([0].filterMap t.context.object? ++ [0]) := by
    rw [List.filterMap_cons, own]
    exact .further (Heap.resource?_eq_none_iff.1 (Option.isNone_iff_eq_none.1 lacks))
      (.here (Heap.resource?_eq_some_iff.1 is))
  exact ⟨read, encloses, furnishes, evaluates, value,
    ((gives x "k" rfl .first).found value).2 nearest, is⟩

end Request

end MarkupLoader
