import MarkupLoader.Proofs.ContentSyntax
import MarkupLoader.Proofs.Fronting

/-!
# Attribute syntax

A text that the last attribute of an element gives to a property of its type may as well stand in a
property element in front of all that is in the element: **the load is the same**, up to positions.

* **The empty property element** changes nothing (`together_fronted`).
* **Until properties are applied**, the attribute and the text are looked at by nobody else. The
  load of the one document goes alongside that of the document without the attribute
  (`LoadState.Alongside`), and that one is level with the load of the other document
  (`LoadState.Level`).
* **Where properties are applied**, the attribute is the last one and the property element the first
  child, so that both assign the text at the same time (`together_trading`).

Main result: `Request.attribute_syntax`.
-/

namespace MarkupLoader

open NodeTree (moved)

namespace Load

/-! ## Where a document has been loaded -/

/-- Where a strict load begins, which is given the object to load into, or makes one. -/
def entering (root : Option ObjectId) (h : Heap) (doc : NodeTree) : LoadState :=
  .initial doc root (.start root false []) h

/-- The object that is given counts as made. -/
theorem start_createRoot_entering (env : Environment) (target : ObjectId) (h : Heap)
    (doc : NodeTree) : (createRoot env).start (entering (some target) h doc) =
      (.ok (), entering (some target) h doc) :=
  start_createRoot_known rfl

/-- What a strict load has made of a document when all values are there. -/
structure Stands (env : Environment) (root : Option ObjectId) (h : Heap) (doc : NodeTree)
    (s : LoadState) : Prop where
  kind : ∀ i, (s.node i).kind = (doc.node i).kind
  children : ∀ i, (s.node i).children = ((doc.without doc.prunedNodes).node i).children
  typed : ∀ i o, s.context.object? i = some o → o < s.heap.size ∧
    (env.registry.get? (doc.node i).typeName = some (s.heap.descriptor o) ∨
      i = NodeTree.root ∧ root = some o ∧ s.heap.descriptor o = h.descriptor o)
  /-- If the outermost element counts, no attribute of a node with a value is as it was written. -/
  expanded : doc.Shaped → doc.isIgnorableNode NodeTree.root = false →
    ∀ i value, s.context.value? i = some value →
      ∀ c ∈ (s.node i).attributes, ∀ raw, c.value ≠ .raw raw

theorem stands_of_entering {env : Environment} {root : Option ObjectId} {h : Heap} {doc : NodeTree}
    {s : LoadState} (proper : doc.Proper) (fits : ∀ n, root = some n → n < h.size)
    (ran : (createRoot env >>= fun _ => populate env).start (entering root h doc) = (.ok (), s)) :
    Stands env root h doc s := by
  obtain ⟨first, before, created, tree, populates, typed⟩ : ∃ first before created,
      first.tree = doc ∧ Populates env false first before created s ∧
        ∀ i o, s.context.object? i = some o →
          env.registry.get? (doc.node i).typeName = some (s.heap.descriptor o) ∨
            i = NodeTree.root ∧ root = some o ∧ s.heap.descriptor o = h.descriptor o := by
    cases root with
    | none =>
      obtain ⟨first, before, created, begun, populates⟩ := populates_of_create proper ran
      exact ⟨first, before, created, begun.tree, populates, fun i o has =>
        .inl (populates.typed begun proper has)⟩
    | some target =>
      rw [start_bind_of_ok (start_createRoot_entering env target h doc)] at ran
      obtain ⟨before, created, populates⟩ := populates_of_loadInto proper (fits target rfl) ran
      exact ⟨_, before, created, rfl, populates, fun i o has =>
        typed_of_loadInto proper populates has⟩
  have proper' : first.tree.Proper := tree ▸ proper
  refine ⟨fun i => ?_, fun i => ?_, fun i o has => ⟨(populates.of_object has).1, typed i o has⟩,
    fun shaped counts i value has => ?_⟩
  · rw [populates.kind proper', LoadState.node, tree]
  · rw [← tree, ← populates.prepares.children proper' i, LoadState.node, populates.tree,
      populates.creating.whole (populates.strictly rfl)]
    rfl
  · have prepared := populates.prepares.prepared proper' (tree ▸ shaped) (tree ▸ counts)
    have reached := (populates.of_value proper' has).2.all
    intro c mem raw
    rw [congrArg NodeBody.attributes (populates.body i), LoadState.node,
      prepared.attributes i reached] at mem
    exact NodeTree.value_of_expandedAttributes mem raw

section Denoting

variable {env : Environment} {e : Nat} {d : TypeDescriptor} {p : Property} {doc doc' : NodeTree}
  {root : Option ObjectId} {h : Heap} {a b s t : LoadState}

theorem denotes_of_stands (keyed : env.registry.Keyed) (stands : Stands env root h doc a)
    (stands' : Stands env root h doc' b)
    (target : ∀ n, root = some n → e = NodeTree.root → h.descriptor n = d) {n : NodeBody}
    (named : (doc.node e).typeName = n.typeName)
    (typed : env.registry.get? n.typeName = some d) (plain : '.' ∉ p.name.toList)
    (is : (doc'.node (e + 1)).kind = .property (n.wrapperName p.name)) : Denotes e d p a b where
  typed o has := by
    obtain ⟨inside, known | ⟨top, given, type⟩⟩ := stands.typed e o has
    · rw [named, typed] at known
      exact ⟨inside, (Option.some.inj known).symm⟩
    · exact ⟨inside, type.trans (target o given top)⟩
  name := ⟨_, _, (stands'.kind _).trans is, n.splitOwner?_wrapperName plain,
    keyed.isAssignableTo typed⟩

/-- The property element stands for the property, wherever the type of its object is asked. -/
theorem property_of_denotes (denotes : Denotes e d p a b) (declared : d.property? p.name = some p) :
    ∃ name, (b.node (e + 1)).kind = .property name ∧ name.isDirective "Arguments" = false ∧
      ∀ site : Site, site.target d name = .ok p.target := by
  obtain ⟨name, owner, is, split, assignable⟩ := denotes.name
  exact ⟨name, is, Site.isDirective_of_splitOwner? split,
    fun _ => Site.target_of_own split assignable declared⟩

/-- **An empty property element changes nothing.** -/
theorem start_applyChild_of_empty {env : Environment} {i child : NodeId} {object : ObjectId}
    {name : QName} {target : Target} (is : (s.node child).kind = .property name)
    (plain : name.isDirective "Arguments" = false) (empty : (s.node child).children = [])
    (resolved : (s.site env i).target (s.heap.descriptor object) name = .ok target) :
    (changeHeap ((s.site env i).applyChild object child)).start s = (.ok (), s) := by
  have values : (s.site env i).elementValues child = [] := by
    rw [Site.elementValues_eq]
    show (s.node child).children.filterMap _ = []
    rw [empty]
    rfl
  have none : s.heap.assignAll object target [] = .ok s.heap := by
    unfold Heap.assignAll
    split
    · rfl
    · split <;> rfl
  rw [Site.applyChild_of_property (s := s.site env i) object child is plain resolved, values]
  show (changeHeap (Except.mapError _ (s.heap.assignAll object target []))).start s = _
  rw [none]
  rfl

/-- What is done to the children of all nodes, if there is an empty property element more. -/
theorem applied_of_empty (denotes : Denotes e d p a b)
    (both : LoadState.LevelFrom env (e + 1) e a b s t) (declared : d.property? p.name = some p)
    (object : (a.node e).isObject = true) (empty : (b.node (e + 1)).children = [])
    (kinds : ∀ i, (b.node (moved (e + 1) i)).kind = (a.node i).kind) :
    Applied env (e + 1) e s t := by
  have chains := Heap.filling_retains.toChains
  obtain ⟨name, is, plain, resolved⟩ := property_of_denotes denotes declared
  intro i listed o gives special
  have here : i = e := by
    refine special.resolve_right fun ⟨_, other⟩ => ?_
    rw [both.settled.tree] at other
    cases object.symm.trans other
  subst here
  refine together_applyChildren_of both.toLevel o ?_ (fun c mem s' t' later => ?_)
    fun _ s' t' later => ⟨t', ?_, later⟩
  · refine both.tree.children_filter fun _ => ?_
    rw [both.settled'.tree]
    exact empty
  · refine kindred_applyChild later.toLevel i o ?_ fun _ _ _ is => ?_
    · rw [later.settled.tree, later.settled'.tree, both.settled.tree, both.settled'.tree]
      exact kinds c
    · exact Nat.lt_irrefl i (is ▸ both.proper.later i c mem)
  · have since := both.settled'.trans chains later.settled'
    have both' : LoadState.LevelFrom env (i + 1) i a b s' t' :=
      ⟨later.toLevel, both.settled.trans chains later.settled, since⟩
    have gives' : s'.context.object? i = some o := by rwa [later.settled.object?]
    have type : t'.heap.descriptor o = d :=
      (later.heap.descriptor o).trans (descriptor_of_denotes denotes both'.settled gives')
    refine start_applyChild_of_empty ?_ plain ?_ (by rw [type]; exact resolved _)
    · rw [LoadState.node, since.tree]
      exact is
    · rw [LoadState.node, since.tree]
      exact empty

end Denoting

/-! ## The property element, while it is empty -/

theorem start_createThenRun_populate (env : Environment) (s : LoadState) :
    (Loader.createThenRun env).start s = ((createRoot env >>= fun _ => populate env) >>= fun _ =>
      furnish env).start s :=
  Request.start_steps env (.create "") s

section Fronting

variable {env : Environment} {root : Option ObjectId} {h : Heap} {t u : NodeTree} {e : Nat}
  {d : TypeDescriptor} {p : Property} {text : String} {a b : LoadState} (laid : t.Laid)
  (object : (t.node NodeTree.root).isObject = true) (gives : t.GivesText env e d p text)

include laid object gives

variable (root h) in
/-- Both documents come to all their values, or neither does. -/
theorem together_fronted_values : TogetherDone (LoadState.Level env (e + 1) e)
    ((createRoot env >>= fun _ => populate env).start (entering root h t))
    ((createRoot env >>= fun _ => populate env).start (entering root h (t.fronted e p.name))) := by
  have laid' := NodeTree.laid_fronted laid gives
  have both := LoadState.opened_initial root (.start root false []) h laid laid'
    (NodeTree.splices_fronted laid gives) (NodeTree.apart_fronted laid gives) rfl rfl rfl
  exact together_opening both laid laid' object

/-- **An empty property element more makes no difference.** -/
theorem together_fronted (keyed : env.registry.Keyed) (blind : env.extensions.Blind)
    (fits : ∀ n, root = some n → n < h.size)
    (target : ∀ n, root = some n → e = NodeTree.root → h.descriptor n = d) :
    TogetherDone (LoadState.Level env (e + 1) e)
      ((Loader.createThenRun env).start (entering root h t))
      ((Loader.createThenRun env).start (entering root h (t.fronted e p.name))) := by
  have inside := gives.inside laid
  rw [start_createThenRun_populate, start_createThenRun_populate]
  refine Together.bindRan (together_fronted_values root h laid object gives)
    fun _ _ a b ran ran' both _ => ?_
  have stands := stands_of_entering laid.proper fits ran
  have stands' := stands_of_entering (NodeTree.laid_fronted laid gives).proper fits ran'
  have new := NodeTree.node_fronted_new laid gives
  have denotes := denotes_of_stands keyed stands stands' target (n := (t.node e).toNodeBody) rfl
    gives.typed gives.plain (by rw [new]; rfl)
  have notDictionary : d.kind ≠ .dictionary := by
    rcases gives.contains with kind | kind <;> simp [kind]
  refine together_furnish both blind (fun s s' since => ?_) fun s s' since => ?_
  · exact filled_of_denotes denotes since notDictionary gives.declared gives.type
  · refine applied_of_empty denotes since gives.declared ?_ ?_ fun i => ?_
    · rw [NodeBody.isObject, stands.kind]
      exact gives.object
    · rw [stands'.children, NodeTree.node_without, new]
      rfl
    · rw [stands'.kind, stands.kind]
      exact congrArg NodeBody.kind (NodeTree.body_grown inside i)

end Fronting

/-! ## The text in the property element -/

section Text

variable {env : Environment} {d : TypeDescriptor} {p : Property} {text : String} {s : LoadState}
  {object : ObjectId}

/-- An attribute assigns its text. -/
theorem applyAttribute_of_text {i : NodeId} {c : Attribute} (named : c.name = ⟨"", p.name⟩)
    (given : c.value = .raw text ∨ c.value = .literal text)
    (resolved : (s.site env i).target (s.heap.descriptor object) ⟨"", p.name⟩ = .ok p.target) :
    (s.site env i).applyAttribute env.extensions object c =
      (s.heap.assign object p.target (.string text)).mapError fun fault =>
        .coercion p.name fault.message c.position := by
  obtain ⟨name, value, position⟩ := c
  obtain rfl : name = ⟨"", p.name⟩ := named
  have reads : (s.site env i).attributeValue env.extensions ⟨⟨"", p.name⟩, value, position⟩ =
      .ok (.string text) := by
    rcases given with rfl | rfl <;> rfl
  have resolved : (s.site env i).target ((s.site env i).heap.descriptor object) ⟨"", p.name⟩ =
      .ok p.target := resolved
  have plain : isLanguage "" = false := by decide
  unfold Site.applyAttribute
  rw [reads, resolved]
  dsimp only
  rw [plain, if_neg Bool.false_ne_true]
  rfl

/-- So does a property element with the text in it. -/
theorem applyChild_of_text_inside {i child inner : NodeId} {name : QName} {target : Target}
    (is : (s.node child).kind = .property name) (plain : name.isDirective "Arguments" = false)
    (resolved : (s.site env i).target (s.heap.descriptor object) name = .ok target)
    (type : target.type ≠ .dictionary) (inside : (s.node child).children = [inner])
    (holds : (s.node inner).kind = .text text) :
    (s.site env i).applyChild object child =
      (s.heap.assign object target (.string text)).mapError fun fault =>
        .coercion name.localName fault.message (s.node child).position := by
  have value : (s.site env i).contentValue? inner = some (.string text) := by
    unfold Site.contentValue?
    rw [show ((s.site env i).tree.node inner).kind = .text text from holds]
  have values : (s.site env i).elementValues child = [.string text] := by
    rw [Site.elementValues_eq]
    show (s.node child).children.filterMap _ = _
    rw [inside, List.filterMap_cons_some value, List.filterMap_nil]
  have one : s.heap.assignAll object target [.string text] = _ :=
    s.heap.assignAll_eq_foldlM object type (.inr (Nat.le_refl 1))
  rw [Site.applyChild_of_property (s := s.site env i) object child is plain resolved, values]
  show Except.mapError _ (s.heap.assignAll object target [.string text]) = _
  rw [one, List.foldlM_cons]
  cases s.heap.assign object target (.string text) <;> rfl

end Text

/-- Nothing comes before the attributes of an object that is no template. -/
theorem start_enterNode {env : Environment} {i : NodeId} {o : ObjectId} {s : LoadState}
    (contains : (s.heap.kind o).Contains) : (enterNode env i o).start s = (.ok (), s) := by
  have notTemplate : s.heap.kind o ≠ .template := by
    rcases contains with is | is <;> simp [is]
  unfold enterNode
  rw [start_get_bind, if_neg notTemplate]
  rfl

/-- What is known when all values are there of loads of a document with an empty property element
and of the one with a text in it: the attribute `c` gives the text to the property that the property
element stands for. -/
structure Trades (e : Nat) (d : TypeDescriptor) (p : Property) (text : String) (c : Attribute)
    (a b : LoadState) : Prop extends Denotes e d p a b where
  silent : a.context.object? (e + 1) = none
  named : c.name = ⟨"", p.name⟩
  given : ∀ o, a.context.object? e = some o → c.value = .raw text ∨ c.value = .literal text
  first : ∃ rest, (a.node e).children = (e + 1) :: rest
  kind : (a.node (e + 1)).kind = (b.node (e + 1)).kind
  empty : (a.node (e + 1)).children = []
  inside : (b.node (e + 1)).children = [e + 2]
  text : (b.node (e + 2)).kind = .text text

/-- A loop over a list with one more member at its end. -/
theorem start_forM_concat {α : Type} (step : α → Load Unit) (next : Unit → Load Unit)
    (first : List α) (last : α) (s : LoadState) :
    ((first ++ [last]).forM step >>= next).start s =
      (first.forM step >>= fun _ => step last >>= next).start s := by
  rw [start_bind, start_forM_append, start_bind, start_bind]
  rcases (first.forM step).start s with ⟨_ | _, t⟩
  · rfl
  · dsimp only
    rw [start_forM_singleton, start_bind]

section Trading

variable {env : Environment} {t : NodeTree} {e : Nat} {d : TypeDescriptor} {p : Property}
  {text : String} {c : Attribute} {a b s s' : LoadState} {o : ObjectId}
  (gives : t.GivesText env e d p text) (trades : Trades e d p text c a b)

include gives trades

section There

variable (both : LoadState.LevelFrom env (e + 2) (e + 1) a b s s')
  (was : a.context.object? e = some o)

include both was

omit gives in
/-- The object of the element is of its type on both sides all the time. -/
theorem type_of_trades : s.heap.descriptor o = d ∧ s'.heap.descriptor o = d := by
  have has : s.context.object? e = some o := by rw [both.settled.object?, was]
  have type := descriptor_of_denotes trades.toDenotes both.settled has
  exact ⟨type, (both.heap.descriptor o).trans type⟩

theorem contains_of_trades : (s.heap.kind o).Contains ∧ (s'.heap.kind o).Contains := by
  obtain ⟨type, type'⟩ := type_of_trades trades both was
  have kind : s.heap.kind o = d.kind := congrArg TypeDescriptor.kind type
  have kind' : s'.heap.kind o = d.kind := congrArg TypeDescriptor.kind type'
  rw [kind, kind']
  exact ⟨gives.contains, gives.contains⟩

/-- **The attribute assigns the text on one side**, and the property element does on the other. -/
theorem together_text_of_trades : TogetherDone (LoadState.Level env (e + 2) (e + 1))
    ((applyAttribute env e o c).start s) ((applyChild env e o (e + 1)).start s') := by
  obtain ⟨type, type'⟩ := type_of_trades trades both was
  obtain ⟨name, is, directive, resolved⟩ := property_of_denotes trades.toDenotes gives.declared
  have named : (s.site env e).target (s.heap.descriptor o) ⟨"", p.name⟩ = .ok p.target := by
    rw [type]
    exact Site.target_of_undotted gives.plain gives.declared
  have there : ∀ i, s'.node i = b.node i := fun i => by
    rw [LoadState.node, both.settled'.tree]
    rfl
  show TogetherDone _ ((changeHeap ((s.site env e).applyAttribute env.extensions o c)).start s)
    ((changeHeap ((s'.site env e).applyChild o (e + 1))).start s')
  rw [applyAttribute_of_text trades.named (trades.given o was) named,
    applyChild_of_text_inside (i := e) ((congrArg (·.kind) (there _)).trans is) directive
      (by rw [type']; exact resolved _) gives.type
      ((congrArg (·.children) (there _)).trans trades.inside)
      ((congrArg (·.kind) (there _)).trans trades.text)]
  exact together_changeHeap (making_level env _ _).toLoose both.toLevel
    ((both.heap.assign o p.target (.string text)).kindred fun _ => rfl)

/-- Where the attribute is, the property element is empty. -/
theorem idle_of_trades : (applyChild env e o (e + 1)).start s = (.ok (), s) := by
  obtain ⟨type, -⟩ := type_of_trades trades both was
  obtain ⟨name, is, directive, resolved⟩ := property_of_denotes trades.toDenotes gives.declared
  have here : s.node (e + 1) = a.node (e + 1) := by
    rw [LoadState.node, both.settled.tree]
    rfl
  refine start_applyChild_of_empty ?_ directive ?_ (by rw [type]; exact resolved _)
  · rw [here, trades.kind, is]
  · rw [here, trades.empty]

omit gives was in
/-- All other children of the element are applied alike. -/
theorem together_rest_of_trades {rest : List NodeId}
    (first : (a.node e).children = (e + 1) :: rest) :
    TogetherDone (LoadState.Level env (e + 2) (e + 1))
      ((rest.forM (applyChild env e o)).start s)
      (((rest.map (moved (e + 2))).forM (applyChild env e o)).start s') := by
  have stays : moved (e + 2) e = e := NodeTree.moved_of_lt (Nat.lt_add_of_pos_right Nat.two_pos)
  have alone : e + 1 ∉ rest := by
    have nodup := both.proper.nodup e
    rw [both.settled.tree, show (a.tree.node e).children = _ from first] at nodup
    exact (List.nodup_cons.1 nodup).1
  have pairs : List.Forall₂ (fun i j => i ∈ rest ∧ j = moved (e + 2) i) rest
      (rest.map (moved (e + 2))) :=
    List.forall₂_map_right_iff.2 (List.forall₂_same.2 fun i mem => ⟨mem, rfl⟩)
  refine Together.mono ?_ fun _ _ (both : LoadState.LevelFrom env (e + 2) (e + 1) a b _ _) =>
    both.toLevel
  refine together_forM₂ pairs (S := fun _ => True) (fun _ _ _ => trivial) ?_ both trivial
  rintro i _ u u' ⟨mem, rfl⟩ both -
  -- Only the texts beside the one in the property element might differ, and there are none.
  have kind : (u'.tree.node (moved (e + 2) i)).kind = (u.tree.node i).kind := by
    refine (both.tree.kind i).resolve_right fun ⟨_, inside, _⟩ => ?_
    rw [both.settled.tree, show (a.tree.node (e + 1)).children = [] from trades.empty] at inside
    cases inside
  have applied := kindred_applyChild both.toLevel e o kind fun _ _ _ is => alone (is ▸ mem)
  rw [stays] at applied
  exact both.step (settles_applyChild env e o i u) (settles_applyChild env e o _ u')
    (together_changeHeap (making_level env _ _).toLoose both.toLevel applied)

end There

/-- **The element is applied alike**: the text is assigned after what all other attributes give, and
before what all other children do. -/
theorem together_trading (both : LoadState.LevelFrom env (e + 2) (e + 1) a b s s')
    (blind : env.extensions.Blind) (loaded : s.tree.Reaches (s.isTemplate env) NodeTree.root e)
    (has : s.context.object? e = some o) :
    TogetherDone (LoadState.Level env (e + 2) (e + 1))
      ((enterNode env e o >>= fun _ =>
        ((s.node e).attributes ++ [c]).forM (applyAttribute env e o) >>= fun _ =>
          applyChildren env e o).start s)
      ((applyNode env e).start s') := by
  have stays : moved (e + 2) e = e := NodeTree.moved_of_lt (Nat.lt_add_of_pos_right Nat.two_pos)
  have retains := Heap.assigning_retains.toWriting
  have was : a.context.object? e = some o := by rwa [← both.settled.object?]
  have has' : s'.context.object? e = some o := by rw [← stays, both.object?, has]
  obtain ⟨rest, first⟩ := trades.first
  have contains : ∀ {u u'}, LoadState.LevelFrom env (e + 2) (e + 1) a b u u' →
      (u.heap.kind o).Contains ∧ (u'.heap.kind o).Contains := fun both =>
    contains_of_trades gives trades both was
  rw [start_applyNode has', start_bind_of_ok (start_enterNode (contains both).1),
    start_bind_of_ok (start_enterNode (contains both).2), start_forM_concat]
  have attributes : TogetherDone (LoadState.LevelFrom env (e + 2) (e + 1) a b)
      (((s.node e).attributes.forM (applyAttribute env e o)).start s)
      (((s'.node e).attributes.forM (applyAttribute env e o)).start s') := by
    have together := together_applyAttributes both.toLevel blind loaded o
    rw [stays] at together
    exact both.step (settles_applyAttributes (retains.to o) env e s)
      (settles_applyAttributes (retains.to o) env e s') together
  refine Together.bind attributes fun _ _ s s' _ both _ => ?_
  have lists : (s'.node e).children = (e + 1) :: rest.map (moved (e + 2)) := by
    have children := both.tree.children e (Nat.ne_of_lt (Nat.lt_succ_self e))
    have before : moved (e + 2) (e + 1) = e + 1 := NodeTree.moved_of_lt (Nat.lt_succ_self (e + 1))
    rw [stays, both.settled.tree, show (a.tree.node e).children = _ from first, List.map_cons,
      before] at children
    exact children
  rw [start_applyChildren env (contains both).2, lists, start_forM_cons]
  refine Together.bind (both.step (settles_applyAttribute Heap.assigning_retains o s)
    (settles_applyChild env e o (e + 1) s') (together_text_of_trades gives trades both was))
    fun _ _ s s' _ both _ => ?_
  have lists : (s.node e).children = (e + 1) :: rest := by
    rw [LoadState.node, both.settled.tree]
    exact first
  rw [start_applyChildren env (contains both).1, lists, start_forM_cons,
    start_bind_of_ok (idle_of_trades gives trades both was)]
  exact together_rest_of_trades trades both first

/-- **Every node is applied alike**, where one document has the attribute and the other one has the
text in the property element. -/
theorem together_applyNode_of_trades {v w : NodeTree} (plucked : v.Plucked w e c)
    (blind : env.extensions.Blind) {n : LoadState} {i : NodeId}
    (along : LoadState.Alongside v w s n)
    (level : LoadState.LevelFrom env (e + 2) (e + 1) a b n s')
    (loaded : n.tree.Reaches (n.isTemplate env) NodeTree.root i) :
    TogetherDone (Relation.Comp (LoadState.Alongside v w)
        (LoadState.LevelFrom env (e + 2) (e + 1) a b))
      ((applyNode env i).start s) ((applyNode env (moved (e + 2) i)).start s') := by
  have assigning := Heap.assigning_retains
  have settles := settles_applyNode env assigning
  have stays : moved (e + 2) e = e := NodeTree.moved_of_lt (Nat.lt_add_of_pos_right Nat.two_pos)
  by_cases here : i = e
  · subst here
    have object : n.context.object? i = s.context.object? i := by rw [along.same]; rfl
    cases has : s.context.object? i with
    | none =>
      have idle : ∀ {u : LoadState}, u.context.object? i = none →
          (applyNode env i).start u = (.ok (), u) := fun none => by
        unfold applyNode
        rw [start_get_bind, none]
        rfl
      rw [stays, idle has, idle (by rw [← stays, level.object?, object, has])]
      exact together_done ⟨n, along, level⟩
    | some o =>
      have attributes : (s.node i).attributes = (n.node i).attributes ++ [c] := by
        rw [along.same, LoadState.node, along.tree]
        exact plucked.last
      rw [stays, start_applyNode has, attributes]
      refine together_trans (alongside_applying plucked along i o _) (level.step ?_ (settles i s')
        (together_trading gives trades level blind loaded (object.trans has)))
      have chains := assigning.toChains
      refine (settles_enterNode assigning o n).bind chains fun _ u => ?_
      refine (settles_forM chains (fun _ => settles_applyAttribute assigning o) _ u).bind chains ?_
      exact fun _ => settles_applyChildren (assigning.toWriting.to o) env i
  · refine together_trans (alongside_applyNode plucked along here) (level.step (settles i n)
      (settles _ s') (together_applyNode level blind (fun u u' both listed o has special => ?_)
        loaded))
    -- Only the element itself lists the property element.
    obtain ⟨rest, first⟩ := trades.first
    rcases special with rfl | ⟨inside, -⟩
    · rw [both.settled.object?, trades.silent] at has
      cases has
    · refine absurd (both.proper.once i e (e + 1) inside ?_) here
      rw [both.settled.tree]
      show e + 1 ∈ (a.node e).children
      rw [first]
      exact List.mem_cons_self

theorem together_applyProperties_of_trades {v w : NodeTree} (plucked : v.Plucked w e c)
    (blind : env.extensions.Blind) {n : LoadState} (along : LoadState.Alongside v w s n)
    (level : LoadState.LevelFrom env (e + 2) (e + 1) a b n s') :
    TogetherDone (Relation.Comp (LoadState.Alongside v w)
        (LoadState.LevelFrom env (e + 2) (e + 1) a b))
      ((applyProperties env).start s) ((applyProperties env).start s') := by
  have loaded : ∀ i ∈ n.loadedUpwards env,
      a.tree.Reaches (fun q => env.isTemplate (a.tree.node q).toNodeBody) NodeTree.root i := by
    intro i mem
    rw [← level.settled.tree]
    exact (NodeTree.mem_postorder level.proper).1 mem
  have lists := level.loadedUpwards
  rw [(alongside_loaded plucked along).2] at lists loaded
  unfold applyProperties
  rw [start_get_bind, start_get_bind]
  refine together_forM lists (S := fun _ => True) (fun _ _ _ _ => trivial)
    (fun i mem u u' both _ => ?_) (fun _ u u' both _ => ?_) ⟨n, along, level⟩ trivial
  · obtain ⟨n, along, level⟩ := both
    refine together_applyNode_of_trades gives trades plucked blind along level ?_
    unfold LoadState.isTemplate LoadState.node
    rw [level.settled.tree]
    exact loaded i mem
  · obtain ⟨n, -, level⟩ := both
    unfold applyNode
    rw [start_get_bind, level.object?_spliced]
    rfl

/-- **The later passes go together**, where one document has the attribute and the other one has the
text in the property element. -/
theorem together_furnish_of_trades {v w : NodeTree} (plucked : v.Plucked w e c)
    (plain : isLanguage c.name.namespaceUri = false) (blind : env.extensions.Blind)
    (along : LoadState.Alongside v w s a) (level : LoadState.Level env (e + 2) (e + 1) a b) :
    TogetherDone (Relation.Comp (LoadState.Alongside v w) (LoadState.Level env (e + 2) (e + 1)))
      ((furnish env).start s) ((furnish env).start b) := by
  have fills := together_trans (alongside_fill plucked plain along)
    (together_fill level fun _ _ since => filled_of_text since trades.text)
  rw [start_furnish, start_furnish]
  refine Together.bind fills fun _ _ s s' _ both _ => ?_
  obtain ⟨n, along, level⟩ := both
  have completes : TogetherDone
      (Relation.Comp (LoadState.Alongside v w) (LoadState.Level env (e + 2) (e + 1)))
      ((completePass env .propertyApplication).start s)
      ((completePass env .propertyApplication).start s') := by
    refine Together.bind (together_applyProperties_of_trades gives trades plucked blind along level)
      fun _ _ s s' _ both _ => ?_
    obtain ⟨n, along, level⟩ := both
    refine together_done ⟨{ n with context := n.context.completed .propertyApplication }, ?_,
      (making_level env _ _).toLoose.completed level.toLevel _⟩
    exact ⟨along.tree, by rw [along.same]; rfl, along.strict⟩
  rw [start_forM_cons, start_forM_cons]
  exact Together.bind completes fun _ _ _ _ _ both _ => together_done both

end Trading

/-! ## From the attribute to the text -/

section Writing

variable {env : Environment} {root : Option ObjectId} {h : Heap} {t u : NodeTree} {e : Nat}
  {d : TypeDescriptor} {p : Property} {text : String} {a b n : LoadState} (laid : t.Laid)
  (object : (t.node NodeTree.root).isObject = true) (gives : t.GivesText env e d p text)
  (fits : ∀ n, root = some n → n < h.size)

include laid object gives fits

/-- The attribute has been read as the text, when all values are there. -/
theorem literal_of_fronted (shaped : t.Shaped)
    (counts : t.isIgnorableNode NodeTree.root = false)
    (ran : (createRoot env >>= fun _ => populate env).start
      (entering root h (t.fronted e p.name)) = (.ok (), a)) {o : ObjectId}
    (has : a.context.object? e = some o) :
    ∀ c ∈ (a.node e).attributes, ∀ raw, c.value ≠ .raw raw := by
  have stays : moved (e + 1) e = e := NodeTree.moved_of_lt (Nat.lt_succ_self e)
  have together := together_fronted_values root h laid object gives
  rw [ran] at together
  generalize ran' : (createRoot env >>= fun _ => populate env).start
    (entering root h t) = last at together
  cases together with
  | @ok _ _ first _ _ both =>
  intro c mem raw is
  have attributes := NodeBody.attributes_of_bare (both.tree.body e)
  rw [stays] at attributes
  have mem : c.unplaced ∈ (first.tree.node e).attributes.map (·.unplaced) := by
    rw [← attributes]
    exact List.mem_map_of_mem mem
  obtain ⟨c', mem', same⟩ := List.mem_map.1 mem
  obtain ⟨value, held, -⟩ := Option.bind_eq_some_iff.1
    (show first.context.object? e = some o by rw [← both.object?, stays, has])
  have stands := stands_of_entering laid.proper fits ran'
  exact stands.expanded shaped counts e value held c' mem' raw
    ((congrArg (·.value) same).trans is)

/-- The attribute gives the text where the property element does. -/
theorem trades_of_entering (keyed : env.registry.Keyed)
    (target : ∀ n, root = some n → e = NodeTree.root → h.descriptor n = d) (shaped : t.Shaped)
    (unescaped : t.isIgnorableNode NodeTree.root = false ∨ AttributeText.literal text = text)
    (proper' : u.Proper) (same : u.unplaced = (t.inElement e p.name text).unplaced)
    (ran : (createRoot env >>= fun _ => populate env).start
      (entering root h (t.fronted e p.name)) = (.ok (), a))
    (ran' : (createRoot env >>= fun _ => populate env).start (entering root h u) = (.ok (), b))
    (both : LoadState.Plucked env e ⟨"", p.name⟩ text a n) :
    ∃ c, a.tree.Plucked n.tree e c ∧ c.name = ⟨"", p.name⟩ ∧ Trades e d p text c n b := by
  obtain ⟨c, plucked, named, value⟩ := both.lost
  have stands := stands_of_entering (NodeTree.laid_fronted laid gives).proper fits ran
  have stands' := stands_of_entering proper' fits ran'
  have new := NodeTree.node_fronted_new laid gives
  have itself := NodeTree.node_fronted_itself laid gives
  obtain ⟨is, holds, holdsText, -⟩ := NodeTree.nodes_inElement laid gives same
  have denotes := denotes_of_stands keyed stands stands' target (n := (t.node e).toNodeBody)
    (by rw [itself]) gives.typed gives.plain is
  have context : n.context = a.context := by rw [both.same]; rfl
  have heap : n.heap = a.heap := by rw [both.same]; rfl
  have object? : n.context.object? = a.context.object? := by rw [context]
  have kind : ∀ i, (n.node i).kind = (a.node i).kind := fun i =>
    congrArg (·.kind) (plucked.retouches.node i)
  have children : ∀ i, (n.node i).children = (a.node i).children := plucked.retouches.children
  have splices := NodeTree.splices_fronted laid gives
  refine ⟨c, plucked, named, {
    typed := fun o has => ?_
    name := denotes.name
    silent := ?_
    named := named
    given := fun o has => ?_
    first := ?_
    kind := ?_
    empty := ?_
    inside := ?_
    text := (stands'.kind _).trans holdsText }⟩
  · rw [heap]
    exact denotes.typed o (object? ▸ has)
  · have together := together_fronted_values root h laid object gives
    rw [ran] at together
    generalize (createRoot env >>= fun _ => populate env).start (entering root h t) = last
      at together
    cases together with
    | ok _ level => rw [object?, level.object?_spliced]
  · rcases value with raw | literal
    · refine .inl ?_
      rcases unescaped with counts | plain
      · have mem : c ∈ (a.node e).attributes := by
          rw [LoadState.node, plucked.last]
          exact List.mem_append_right _ (List.mem_singleton_self c)
        exact absurd raw (literal_of_fronted laid object gives fits shaped counts ran
          (object? ▸ has) c mem _)
      · rw [raw, plain]
    · exact .inr literal
  · have stays := splices.not_pruned (NodeTree.laid_fronted laid gives).proper
    rw [children, stands.children, NodeTree.node_without, itself]
    dsimp only
    rw [List.filter_cons_of_pos (by simpa using stays)]
    exact ⟨_, rfl⟩
  · rw [kind, stands.kind, stands'.kind, is, new]
    rfl
  · rw [children, stands.children, NodeTree.node_without, new]
    rfl
  · rw [stands'.children, NodeTree.node_without]
    dsimp only
    rw [holds]
    refine List.filter_eq_self.2 fun c mem => ?_
    obtain rfl := List.mem_singleton.1 mem
    simpa using (NodeTree.splices_inElement laid gives same).not_pruned proper'

/-- **The text in the property element takes the place of the attribute.** -/
theorem together_inElement (keyed : env.registry.Keyed) (blind : env.extensions.Blind)
    (target : ∀ n, root = some n → e = NodeTree.root → h.descriptor n = d) (shaped : t.Shaped)
    (unescaped : t.isIgnorableNode NodeTree.root = false ∨ AttributeText.literal text = text)
    (laid' : u.Laid) (same : u.unplaced = (t.inElement e p.name text).unplaced) :
    TogetherDone (fun a b => ∃ v w, Relation.Comp (LoadState.Alongside v w)
        (LoadState.Level env (e + 2) (e + 1)) a b)
      ((Loader.createThenRun env).start (entering root h (t.fronted e p.name)))
      ((Loader.createThenRun env).start (entering root h u)) := by
  have laidF := NodeTree.laid_fronted laid gives
  have laidB := NodeTree.laid_bared laid gives
  have splices := NodeTree.splices_fronted laid gives
  have stays : moved (e + 1) e = e := NodeTree.moved_of_lt (Nat.lt_succ_self e)
  have objectF : ((t.fronted e p.name).node NodeTree.root).isObject = true := by
    rw [← splices.root_eq, splices.isObject, object]
  obtain ⟨c, plucked, named, value⟩ := NodeTree.plucked_bared laid gives
  have objectB : ((t.bared e p.name).node NodeTree.root).isObject = true := by
    rw [plucked.retouches.node NodeTree.root]
    exact objectF
  have outside := (NodeTree.outside_fronted laid gives).1
  have plain : isLanguage (⟨"", p.name⟩ : QName).namespaceUri = false := by
    show isLanguage "" = false
    decide
  have both : LoadState.Plucked env e ⟨"", p.name⟩ text
      (entering root h (t.fronted e p.name)) (entering root h (t.bared e p.name)) := {
    same := rfl
    strict := rfl
    inside := laidF.proper.inside_of_reaches outside
    counts := gives.counts
    lost := ⟨c, plucked, named, .inl value⟩
    outside := fun q template below => by
      by_cases here : e = q
      · subst here
        have none := gives.templates
        rw [NodeTree.templates, ← splices.isTemplate, stays] at none
        cases none.symm.trans template
      · exact laidF.proper.not_reaches_below template below here outside }
  have values := together_trans
    (plucked_populate plain both laidF laidB objectF)
    (together_opening (LoadState.opened_initial root (.start root false []) h laidB laid'
      (NodeTree.splices_inElement laid gives same) (NodeTree.apart_inElement laid gives same) rfl
      rfl rfl) laidB laid' objectB)
  rw [start_createThenRun_populate, start_createThenRun_populate]
  refine Together.bindRan values fun _ _ a b ran ran' ⟨n, both, level⟩ _ => ?_
  obtain ⟨c, plucked, named, trades⟩ :=
    trades_of_entering laid object gives fits keyed target shaped unescaped laid'.proper same ran
      ran' both
  exact Together.mono (together_furnish_of_trades gives trades plucked (named ▸ plain) blind
    both.alongside level) fun _ _ both => ⟨_, _, both⟩

end Writing

end Load

namespace Request

section Trading

variable {env : Environment} {h : Heap} {request request' : Request} {t u : NodeTree} {e : Nat}
  {d : TypeDescriptor} {p : Property} {text : String} (versions : Versions t u request request')

include versions

variable (env) in
/-- Loads of both versions begin with one object, or without, and take the same steps. -/
theorem outcome_of_versions (fits : request.Fits h) :
    request.outcome env false h =
      (Run.ofStep (Loader.createThenRun env) (Load.entering request.target? h t)).outcome ∧
    request'.outcome env false h =
      (Run.ofStep (Loader.createThenRun env) (Load.entering request.target? h u)).outcome ∧
    ∀ n, request.target? = some n → n < h.size := by
  cases versions with
  | create read read' =>
    refine ⟨?_, ?_, fun n given => by cases given⟩
    · rw [outcome_eq, run_create read]
      rfl
    · rw [outcome_eq, run_create read']
      rfl
  | loadInto target read read' =>
    have same : ∀ doc, Run.ofStep (Load.runPasses env) (Load.entering (some target) h doc) =
        Run.ofStep (Loader.createThenRun env) (Load.entering (some target) h doc) := fun doc => by
      unfold Run.ofStep Loader.createThenRun
      rw [Load.start_bind_of_ok (Load.start_createRoot_entering env target h doc)]
    refine ⟨?_, ?_, fun n given => by cases given; exact fits⟩
    · rw [outcome_eq, run_loadInto read]
      exact congrArg Run.outcome (same t)
    · rw [outcome_eq, run_loadInto read']
      exact congrArg Run.outcome (same u)

theorem Versions.shaped : t.Shaped := by
  cases versions with
  | create read read' => exact NodeTree.shaped_of_read read
  | loadInto target read read' => exact NodeTree.shaped_of_read read

/--
**Attribute syntax is shorthand for the property element.** Let the last attribute of an element
outside templates give a text to a property of its type, which takes content, and let the property
be no dictionary. If the property element stands in place of the attribute, with the text in it and
in front of all else that is in the element, strict loads have the same outcome: they fail with
errors of one kind, or leave the same objects, with the same properties in the same order, under the
same names.

A text that begins with a brace is escaped in the attribute. That is taken back when the document is
expanded, which an outermost element that may be ignored is not, and so there no escape may be
needed. An object to load into has to be of the type that the document names, if the element is the
outermost one.
-/
theorem attribute_syntax (keyed : env.registry.Keyed) (blind : env.extensions.Blind)
    (fits : request.Fits h)
    (target : ∀ n, request.target? = some n → e = NodeTree.root → h.descriptor n = d)
    (same : u.unplaced = (t.inElement e p.name text).unplaced) (gives : t.GivesText env e d p text)
    (unescaped : t.isIgnorableNode NodeTree.root = false ∨ AttributeText.literal text = text) :
    Outcome.Akin (request.outcome env false h) (request'.outcome env false h) := by
  obtain ⟨laid, laid', object⟩ := versions.documents
  obtain ⟨outcome, outcome', fits⟩ := outcome_of_versions env versions fits
  have whole := Load.together_trans
    (Load.together_fronted laid object gives keyed blind fits target)
    (Load.together_inElement laid object gives fits keyed blind target versions.shaped unescaped
      laid' same)
  rw [outcome, outcome']
  unfold Run.ofStep
  generalize (Loader.createThenRun env).start (Load.entering _ h t) = last at whole
  generalize (Loader.createThenRun env).start (Load.entering _ h u) = last' at whole
  cases whole with
  | ok _ both =>
    obtain ⟨m, level, v, w, n, along, level'⟩ := both
    have report : n.report = m.report ∧ n.heap = m.heap := by
      rw [along.same]
      exact ⟨rfl, rfl⟩
    have first := akin_report level
    rw [← report.1, ← report.2] at first
    exact first.trans (akin_report level')
  | error kind => exact .error kind

end Trading

/-- A text with braces in it, escaped in an attribute and as it is in the property element. -/
theorem attribute_syntax_label :
    let env : Environment := ⟨.controls, .builtIn⟩
    let start := "<StackLayout xmlns=\"http://xamarin.com/schemas/2014/forms\">"
    let markup := start ++ "<Label Text=\"\x7b\x7d\x7ba\x7d\"/></StackLayout>"
    let markup' := start ++ "<Label><Label.Text>\x7ba\x7d</Label.Text></Label></StackLayout>"
    let property : Property := ⟨"Text", .string⟩
    env.registry.Keyed ∧ env.extensions.Blind ∧
      ∃ t u, Versions t u (create markup) (create markup') ∧
        u.unplaced = (t.inElement 1 "Text" "\x7ba\x7d").unplaced ∧
        t.GivesText env 1 Controls.label property "\x7ba\x7d" ∧
        t.isIgnorableNode NodeTree.root = false ∧
        Outcome.Akin ((create markup).outcome env false .empty)
          ((create markup').outcome env false .empty) ∧
        ((create markup).outcome env false .empty).result.toOption.isSome = true := by
  intro env start markup markup' property
  let forms (localName : String) : QName := ⟨formsNamespace, localName⟩
  let root : Node :=
    ⟨⟨.root, forms "StackLayout", [], [], [("", formsNamespace)], ⟨1, 1⟩⟩, [1], none⟩
  let wrapper : QName := forms "Label.Text"
  let given : Attribute := ⟨⟨"", "Text"⟩, .raw "\x7b\x7d\x7ba\x7d", ⟨1, 67⟩⟩
  let t : NodeTree :=
    ⟨#[root, ⟨⟨.element, forms "Label", [], [given], [], ⟨1, 60⟩⟩, [], none⟩], []⟩
  let u : NodeTree := ⟨#[root,
    ⟨⟨.element, forms "Label", [], [], [], ⟨1, 60⟩⟩, [2], none⟩,
    ⟨⟨.property wrapper, wrapper, [], [], [], ⟨1, 67⟩⟩, [3], none⟩,
    ⟨.ofText "\x7ba\x7d" ⟨1, 79⟩, [], none⟩], []⟩
  have read : NodeTree.read markup = .ok t := NodeTree.read_of_toOption (by decide +kernel)
  have read' : NodeTree.read markup' = .ok u := NodeTree.read_of_toOption (by decide +kernel)
  have versions : Versions t u (create markup) (create markup') := .create read read'
  have known : env.registry.get? (forms "Label") = some Controls.label := rfl
  obtain ⟨same, counts, succeeds⟩ :
      u.unplaced = (t.inElement 1 "Text" "\x7ba\x7d").unplaced ∧
      t.isIgnorableNode NodeTree.root = false ∧
      ((create markup).outcome env false .empty).result.toOption.isSome = true := by
    decide +kernel
  have gives : t.GivesText env 1 Controls.label property "\x7ba\x7d" := {
    object := rfl
    outside := .child .top rfl (List.mem_singleton_self 1)
    typed := known
    contains := .inl rfl
    declared := rfl
    type := by decide
    plain := by decide
    last := ⟨⟨1, 67⟩, rfl⟩
    counts := rfl }
  have keyed : env.registry.Keyed := Registry.keyed_controls
  have blind : env.extensions.Blind := Extensions.blind_builtIn
  have fits : (create markup).Fits .empty := trivial
  clear_value t u markup markup'
  have akin := attribute_syntax (p := property) versions keyed blind fits
    (fun n given => by cases given) same gives (.inl counts)
  exact ⟨keyed, blind, t, u, versions, same, gives, counts, akin, succeeds⟩

/-- **Where the two ways part**: an extension that looks at the number of its node sees that there
are two nodes more in front of it, and in an outermost element that may be ignored no escape is
taken back. -/
theorem attribute_syntax_parts :
    let text : Property := ⟨"Text", .string⟩
    let title : Property := ⟨"Title", .string⟩
    let card := (TypeDescriptor.named "urn:test" "Card").property "Title" .string
    let number : Extension := fun _ s => .ok (.int (Int64.ofNat s.node))
    let numbering : Environment :=
      ⟨.controls, Extensions.builtIn.register ⟨"urn:test", "Node"⟩ number⟩
    let cards : Environment := ⟨Registry.controls.register card, .builtIn⟩
    let start := "<StackLayout xmlns=\"http://xamarin.com/schemas/2014/forms\"" ++
      " xmlns:t=\"urn:test\">"
    let button := "<Button CommandParameter=\"\x7bt:Node\x7d\"/></StackLayout>"
    let label := start ++ "<Label Text=\"a\"/>" ++ button
    let label' := start ++ "<Label><Label.Text>a</Label.Text></Label>" ++ button
    let ignorable := "<f:StackLayout xmlns:f=\"http://xamarin.com/schemas/2014/forms\"" ++
      " xmlns:mc=\"http://schemas.openxmlformats.org/markup-compatibility/2006\"" ++
      " mc:Ignorable=\"f\" xmlns=\"urn:test\">"
    let braced := ignorable ++ "<Card Title=\"\x7b\x7d\x7ba\x7d\"/></f:StackLayout>"
    let braced' := ignorable ++ "<Card><Card.Title>\x7ba\x7d</Card.Title></Card></f:StackLayout>"
    (∃ t u, Versions t u (create label) (create label') ∧
      u.unplaced = (t.inElement 1 "Text" "a").unplaced ∧
      t.GivesText numbering 1 Controls.label text "a" ∧
      ((create label).outcome numbering false .empty).result.toOption.isSome = true ∧
      (((create label).outcome numbering false .empty).heap.get? 2 "CommandParameter").bind
        Value.int? = some 2 ∧
      ((create label').outcome numbering false .empty).result.toOption.isSome = true ∧
      (((create label').outcome numbering false .empty).heap.get? 2 "CommandParameter").bind
        Value.int? = some 4) ∧
    ∃ t u, Versions t u (create braced) (create braced') ∧
      u.unplaced = (t.inElement 1 "Title" "\x7ba\x7d").unplaced ∧
      t.GivesText cards 1 card title "\x7ba\x7d" ∧
      ((create braced).outcome cards false .empty).result.toOption.isSome = true ∧
      (((create braced).outcome cards false .empty).heap.get? 1 "Title").bind Value.string? =
        some "\x7b\x7d\x7ba\x7d" ∧
      ((create braced').outcome cards false .empty).result.toOption.isSome = true ∧
      (((create braced').outcome cards false .empty).heap.get? 1 "Title").bind Value.string? =
        some "\x7ba\x7d" := by
  intro text title card number numbering cards start button label label' ignorable braced braced'
  let forms (localName : String) : QName := ⟨formsNamespace, localName⟩
  let written (name value : String) (column : Nat) : Attribute :=
    ⟨⟨"", name⟩, .raw value, ⟨1, column⟩⟩
  constructor
  · let root (children : List NodeId) : Node := ⟨⟨.root, forms "StackLayout", [], [],
      [("", formsNamespace), ("t", "urn:test")], ⟨1, 1⟩⟩, children, none⟩
    let button (column inside : Nat) : Node := ⟨⟨.element, forms "Button", [],
      [written "CommandParameter" "\x7bt:Node\x7d" inside], [], ⟨1, column⟩⟩, [], none⟩
    let wrapper : QName := forms "Label.Text"
    let t : NodeTree := ⟨#[root [1, 2],
      ⟨⟨.element, forms "Label", [], [written "Text" "a" 86], [], ⟨1, 79⟩⟩, [], none⟩,
      button 96 104], []⟩
    let u : NodeTree := ⟨#[root [1, 4],
      ⟨⟨.element, forms "Label", [], [], [], ⟨1, 79⟩⟩, [2], none⟩,
      ⟨⟨.property wrapper, wrapper, [], [], [], ⟨1, 86⟩⟩, [3], none⟩,
      ⟨.ofText "a" ⟨1, 98⟩, [], none⟩, button 120 128], []⟩
    have read : NodeTree.read label = .ok t := NodeTree.read_of_toOption (by decide +kernel)
    have read' : NodeTree.read label' = .ok u := NodeTree.read_of_toOption (by decide +kernel)
    have gives : t.GivesText numbering 1 Controls.label text "a" := {
      object := rfl
      outside := .child .top rfl List.mem_cons_self
      typed := rfl
      contains := .inl rfl
      declared := rfl
      type := by decide
      plain := by decide
      last := ⟨⟨1, 86⟩, rfl⟩
      counts := rfl }
    exact ⟨t, u, .create read read', by decide +kernel, gives, by decide +kernel⟩
  · let compatibility := "http://schemas.openxmlformats.org/markup-compatibility/2006"
    let root : Node := ⟨⟨.root, forms "StackLayout", [], [],
      [("f", formsNamespace), ("mc", compatibility), ("", "urn:test")], ⟨1, 1⟩⟩, [1], none⟩
    let name : QName := ⟨"urn:test", "Card"⟩
    let wrapper : QName := ⟨"urn:test", "Card.Title"⟩
    let t : NodeTree := ⟨#[root, ⟨⟨.element, name, [],
      [written "Title" "\x7b\x7d\x7ba\x7d" 175], [], ⟨1, 169⟩⟩, [], none⟩], [formsNamespace]⟩
    let u : NodeTree := ⟨#[root, ⟨⟨.element, name, [], [], [], ⟨1, 169⟩⟩, [2], none⟩,
      ⟨⟨.property wrapper, wrapper, [], [], [], ⟨1, 175⟩⟩, [3], none⟩,
      ⟨.ofText "\x7ba\x7d" ⟨1, 187⟩, [], none⟩], [formsNamespace]⟩
    have read : NodeTree.read braced = .ok t := NodeTree.read_of_toOption (by decide +kernel)
    have read' : NodeTree.read braced' = .ok u := NodeTree.read_of_toOption (by decide +kernel)
    have gives : t.GivesText cards 1 card title "\x7ba\x7d" := {
      object := rfl
      outside := .child .top (by decide +kernel) (List.mem_singleton_self 1)
      typed := rfl
      contains := .inl rfl
      declared := by decide +kernel
      type := by decide
      plain := by decide
      last := ⟨⟨1, 175⟩, rfl⟩
      counts := rfl }
    exact ⟨t, u, .create read read', by decide +kernel, gives, by decide +kernel⟩

end Request

end MarkupLoader
