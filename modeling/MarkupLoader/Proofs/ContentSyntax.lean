import MarkupLoader.Proofs.AbreastRequests
import MarkupLoader.Proofs.Contents
import MarkupLoader.Proofs.Wrapping

/-!
# Content syntax

What stands directly in an element goes to the content property of its type, as if it stood in the
property element of that property. **The two ways part in one respect**: a property element gives a
property that holds a single value one value at most, and fails otherwise, while children that stand
in the element directly are assigned one after the other, so that the last one is left.

* **Assigning values one by one** is what a property element does as well, unless it gets too many
  (`Heap.assignAll_eq_foldlM`).
* **Nothing else looks at the property element**: it makes no object, it stands for no dictionary,
  and it is pruned only together with the element around it.

Main results: `together_content`, `Request.content_syntax`.
-/

namespace MarkupLoader

open NodeTree (moved)

/-! ## Content properties -/

/-- A type of plain kind whose content goes to a declared property, which holds no dictionary. -/
structure TypeDescriptor.HasContent (d : TypeDescriptor) (p : Property) : Prop where
  plain : d.kind = .plain
  content : d.contentProperty = some p.name
  declared : d.property? p.name = some p
  type : p.type ≠ .dictionary

theorem TypeDescriptor.HasContent.contentTarget {d : TypeDescriptor} {p : Property}
    (has : d.HasContent p) : d.contentTarget = .ok p.target := by
  unfold TypeDescriptor.contentTarget
  rw [has.content]
  dsimp only
  rw [has.declared]

namespace Registry

/-- Types are known under their own names. -/
def Keyed (r : Registry) : Prop := ∀ name d, r.get? name = some d → d.name.canonical = name.canonical

theorem keyed_empty : empty.Keyed := fun _ _ found => by cases found

theorem Keyed.register {r : Registry} (keyed : r.Keyed) (d : TypeDescriptor) :
    (r.register d).Keyed := by
  intro name other found
  by_cases same : name.canonical = d.name.canonical
  · have there : (r.register d).get? name = some d := by
      unfold get?
      rw [same]
      exact get?_register_self r d
    cases found.symm.trans there
    exact same.symm
  · rw [get?_register_of_ne r d same] at found
    exact keyed name other found

theorem localName_canonical (name : QName) : name.canonical.localName = name.localName := by
  unfold QName.canonical
  split <;> rfl

/-- Objects count as what their type is called. -/
theorem Keyed.isAssignableTo {r : Registry} (keyed : r.Keyed) {name : QName} {d : TypeDescriptor}
    (found : r.get? name = some d) : d.isAssignableTo name.localName = true := by
  have same : d.name.localName = name.localName := by
    rw [← localName_canonical, keyed name d found, localName_canonical]
  simp [TypeDescriptor.isAssignableTo, same]

theorem keyed_controls : controls.Keyed := by
  have all : ∀ (list : List TypeDescriptor) (r : Registry), r.Keyed →
      (list.foldl register r).Keyed := fun list => by
    induction list with
    | nil => exact fun r keyed => keyed
    | cons d rest ih => exact fun r keyed => ih _ (keyed.register d)
  exact all Controls.all empty keyed_empty

end Registry

/-! ## Assigning content -/

/-- Several values are assigned one by one, unless there are too many of them. -/
theorem Heap.assignAll_eq_foldlM (h : Heap) (object : ObjectId) {target : Target}
    (type : target.type ≠ .dictionary) {values : List Value}
    (few : target.type = .collection ∨ values.length ≤ 1) :
    h.assignAll object target values = values.foldlM (fun h v => h.assign object target v) h := by
  unfold Heap.assignAll
  rw [if_neg type]
  split
  · rfl
  · have few := few.resolve_left ‹_›
    match values with
    | [] => rfl
    | [value] =>
      rw [List.foldlM_cons]
      exact (bind_pure _).symm
    | _ :: _ :: _ => simp at few

/-- Several values are too many for a property that holds one. -/
theorem Heap.assignAll_of_many (h : Heap) (object : ObjectId) {target : Target}
    (type : target.type ≠ .dictionary) (single : target.type ≠ .collection) {values : List Value}
    (many : 1 < values.length) :
    h.assignAll object target values = .error (.tooManyValues target.key values.length) := by
  unfold Heap.assignAll
  rw [if_neg type, if_neg single]
  match values with
  | [] => simp at many
  | [_] => simp at many
  | _ :: _ :: _ => rfl

/-- Assigns a value, if there is one. -/
def Heap.assignGiven (h : Heap) (object : ObjectId) (target : Target) :
    Option Value → Except AssignmentFault Heap
  | none => .ok h
  | some value => h.assign object target value

namespace Site

variable {s : Site} {object : ObjectId} {child : NodeId} {target : Target}

/-- The value that a child gives that is no property element. -/
def contentValue? (s : Site) (child : NodeId) : Option Value :=
  match (s.tree.node child).kind with
  | .text content => some (.string content)
  | _ => s.context.value? child

theorem elementValues_eq (element : NodeId) :
    s.elementValues element = (s.tree.node element).children.filterMap s.contentValue? := rfl

/-- A child that is no property element has its value assigned, if it has one. -/
theorem applyChild_of_content (child : NodeId) (kind : s.heap.kind object = .plain)
    (takes : (s.heap.descriptor object).contentTarget = .ok target)
    (content : ∀ name, (s.tree.node child).kind ≠ .property name) :
    s.applyChild object child =
      (s.heap.assignGiven object target (s.contentValue? child)).mapError fun fault =>
        .coercion (s.heap.object object).typeName fault.message (s.tree.node child).position := by
  have assigned : ∀ value, s.assignContent object value = s.heap.assign object target value := by
    intro value
    unfold assignContent
    rw [takes]
    rfl
  have inside : s.applyObject object child =
      s.heap.assignGiven object target (s.context.value? child) := by
    unfold applyObject
    cases s.context.value? child with
    | none => rfl
    | some value =>
      dsimp only
      rw [kind, if_neg (by decide), assigned]
      rfl
  unfold applyChild contentValue?
  dsimp only
  cases is : (s.tree.node child).kind with
  | text text =>
    dsimp only
    rw [assigned]
    rfl
  | property name => exact absurd is (content name)
  | root | element =>
    dsimp only
    rw [inside]

/-- A property element has the values inside it assigned. -/
theorem applyChild_of_property (object : ObjectId) (child : NodeId) {name : QName} (is : (s.tree.node child).kind = .property name)
    (plain : name.isDirective "Arguments" = false)
    (resolved : s.target (s.heap.descriptor object) name = .ok target) :
    s.applyChild object child =
      (s.heap.assignAll object target (s.elementValues child)).mapError fun fault =>
        .coercion name.localName fault.message (s.tree.node child).position := by
  unfold applyChild
  dsimp only
  rw [is]
  dsimp only
  rw [plain, if_neg Bool.false_ne_true, applyElement, resolved]
  rfl

end Site

namespace Load

theorem start_forM_singleton {α : Type} (step : α → Load Unit) (c : α) (s : LoadState) :
    ([c].forM step).start s = (step c).start s := by
  rw [start_forM_cons, start_bind]
  rcases (step c).start s with ⟨_ | _, t⟩ <;> rfl

/-- **Children that are applied one by one** leave what is left if their values are assigned one
after the other, in one step. -/
theorem together_content {env : Environment} {x p e : NodeId} {object : ObjectId} {target : Target}
    {origin s t : LoadState} {k : Heap} (property : String) (position : Position)
    (both : LoadState.Level env x p s { t with heap := k }) (strict : t.context.tolerant = false)
    (since : origin.Settled Heap.SameTypes s) (kind : origin.heap.kind object = .plain)
    (takes : (origin.heap.descriptor object).contentTarget = .ok target) (list : List NodeId)
    (content : ∀ c ∈ list, ∀ name, (origin.tree.node c).kind ≠ .property name) :
    TogetherDone (LoadState.Level env x p)
      ((list.forM fun child => do
        let s ← get
        changeHeap ((s.site env e).applyChild object child) : Load Unit).start s)
      ((changeHeap (((list.filterMap (origin.site env e).contentValue?).foldlM
        (fun (h : Heap) v => h.assign object target v) k).mapError fun fault =>
          .coercion property fault.message position)).start t) := by
  induction list generalizing s k with
  | nil => exact together_done both
  | cons c rest ih =>
    obtain ⟨here, later⟩ := List.forall_mem_cons.1 content
    have strict' : s.context.tolerant = false := both.tolerant.symm.trans strict
    have kind' : s.heap.kind object = .plain := (since.heap.kind object).trans kind
    have takes' : (s.heap.descriptor object).contentTarget = .ok target := by
      rw [since.heap.descriptor, takes]
    have value : (s.site env e).contentValue? = (origin.site env e).contentValue? := by
      unfold Site.contentValue? LoadState.site Context.value?
      rw [since.tree, since.values]
    have applied := Site.applyChild_of_content (s := s.site env e) c kind' takes' (by rw [LoadState.site, since.tree]; exact here)
    rw [start_forM_cons, start_bind, start_get_bind, applied, value]
    cases given : (origin.site env e).contentValue? c with
    | none =>
      rw [List.filterMap_cons_none given]
      exact ih both since later
    | some v =>
      rw [List.filterMap_cons_some given, List.foldlM_cons]
      have alike := both.heap.assign object target v
      have wrote : ∀ {h}, s.heap.assign object target v = .ok h → s.heap.SameTypes h := fun ok =>
        Heap.sameTypes_of_write (w := .assign object target v) ok
      unfold Heap.assignGiven
      rw [show (s.site env e).heap = s.heap from rfl]
      dsimp only at alike ⊢
      generalize s.heap.assign object target v = first at alike wrote
      generalize k.assign object target v = second at alike
      cases alike with
      | @ok h k' akin =>
        have since' := since.trans Heap.assigning_sameTypes.toChains
          (show s.Settled Heap.SameTypes { s with heap := h } from ⟨rfl, rfl, rfl, wrote rfl⟩)
        have both' := (making_level env x p).heap (b := { t with heap := k }) both akin
        exact ih both' since' later
      | error fault =>
        have first : ∀ {u : LoadState} (f : AssignmentFault → LoadError), u.context.tolerant = false →
            (changeHeap (Except.mapError f (.error fault))).start u = (.error (f fault), u) :=
          fun f strict => start_changeHeap_strict strict (f fault)
        rw [first _ strict']
        show TogetherDone _ _ ((changeHeap (Except.mapError _ (.error fault))).start t)
        rw [first _ strict]
        exact .error rfl

/-! ## Too many values -/

/-- A loop that does not fail has got through each of its rounds. -/
theorem exists_of_forM {H : Heap → Heap → Prop} {α : Type} {step : α → Load Unit} {list : List α}
    {s last : LoadState} (chains : Heap.Chains H) (settles : ∀ c, Settles H (step c))
    (ran : (list.forM step).start s = (.ok (), last)) {c : α} (mem : c ∈ list) :
    ∃ t u, s.Settled H t ∧ (step c).start t = (.ok (), u) := by
  induction list generalizing s with
  | nil => cases mem
  | cons d rest ih =>
    rw [start_forM_cons] at ran
    obtain ⟨_, t, first, ran⟩ := ok_of_start_bind ran
    rcases List.mem_cons.1 mem with rfl | later
    · exact ⟨s, t, .refl chains s, first⟩
    · obtain ⟨v, w, since, ran⟩ := ih ran later
      exact ⟨v, w, ((settles d).ran first).trans chains since, ran⟩

section Applied

variable {env : Environment} {e c : NodeId} {object : ObjectId} {s last : LoadState}
  (strict : s.context.tolerant = false) (has : s.context.object? e = some object)
  (inside : object < s.heap.size) (kind : s.heap.kind object = .plain)
  (listed : c ∈ (s.node e).children)

include strict has inside kind listed

/-- Each child of a plain object is applied in a strict load that gets through the node. -/
theorem exists_of_applyNode (ran : (applyNode env e).start s = (.ok (), last)) :
    ∃ t h, s.Settled Heap.Retains t ∧ (t.site env e).applyChild object c = .ok h := by
  have assigning := Heap.assigning_retains
  have chains := assigning.toChains
  rw [start_applyNode has] at ran
  obtain ⟨_, t, entered, ran⟩ := ok_of_start_bind ran
  obtain ⟨_, u, attributes, ran⟩ := ok_of_start_bind ran
  have since : s.Settled Heap.Retains u :=
    ((settles_enterNode assigning object).ran entered).trans chains
      ((settles_forM chains (fun _ => settles_applyAttribute assigning object) _).ran attributes)
  have children : (u.node e).children = (s.node e).children := by
    rw [LoadState.node, since.tree]
    rfl
  have stays : u.heap.kind object = .plain :=
    (congrArg TypeDescriptor.kind (since.heap.descriptor object inside)).trans kind
  unfold applyChildren at ran
  rw [start_get_bind, stays, children] at ran
  have settles : ∀ child, Settles Heap.Retains (do
      let s ← get
      changeHeap ((s.site env e).applyChild object child) : Load Unit) := fun child t =>
    settles_changeHeap (s := t) chains fun _ => (assigning.toWriting.to object).child
  obtain ⟨v, w, later, ran⟩ := exists_of_forM chains settles ran listed
  have since := since.trans chains later
  obtain ⟨h, applied, -⟩ := ok_of_changeHeap (since.tolerant.trans strict) ran
  exact ⟨v, h, since, applied⟩

/-- **Each child of a plain object that is loaded is applied** in a strict load that does not fail,
at some time when nothing but the heap has changed since all values were there. -/
theorem exists_of_furnish (proper : s.tree.Proper)
    (loaded : s.tree.Reaches (s.isTemplate env) NodeTree.root e)
    (ran : (furnish env).start s = (.ok (), last)) :
    ∃ t h, s.Settled Heap.Retains t ∧ (t.site env e).applyChild object c = .ok h := by
  have chains := Heap.assigning_retains.toChains
  obtain ⟨t, u, fills, ran, -⟩ := ok_of_furnish ran
  have since := (settles_fill Heap.filling_retains env).ran fills
  unfold applyProperties at ran
  rw [start_get_bind] at ran
  have mem : e ∈ t.loadedUpwards env := by
    refine (NodeTree.mem_postorder (since.tree ▸ proper)).2 ?_
    unfold LoadState.isTemplate LoadState.node at *
    rwa [since.tree]
  obtain ⟨v, w, later, ran⟩ :=
    exists_of_forM chains (settles_applyNode env Heap.assigning_retains) ran mem
  have since := since.trans chains later
  have has : v.context.object? e = some object := (congrFun since.object? e).trans has
  have kind : v.heap.kind object = .plain :=
    (congrArg TypeDescriptor.kind (since.heap.descriptor object inside)).trans kind
  obtain ⟨last, h, later, applied⟩ := exists_of_applyNode (since.tolerant.trans strict) has
    (Nat.lt_of_lt_of_le inside since.heap.size) kind
    (by rw [LoadState.node, since.tree]; exact listed) ran
  exact ⟨last, h, since.trans chains later, applied⟩

end Applied

/-! ## Where content is wrapped -/

/-- What is known when all values are there of loads of a document and of one with a property element
more right behind `e`: that stands for a property of the object of `e`. -/
structure Denotes (e : Nat) (d : TypeDescriptor) (p : Property) (a b : LoadState) : Prop where
  typed : ∀ o, a.context.object? e = some o → o < a.heap.size ∧ a.heap.descriptor o = d
  name : ∃ name owner, (b.node (e + 1)).kind = .property name ∧
    splitOwner? name.localName = some (owner, p.name) ∧ d.isAssignableTo owner = true

section Denoting

variable {env : Environment} {e : Nat} {d : TypeDescriptor} {p : Property} {a b s t : LoadState}
  (denotes : Denotes e d p a b)

include denotes

/-- The object of `e` is of its type all the time. -/
theorem descriptor_of_denotes (settled : a.Settled Heap.Retains s) {o : ObjectId}
    (object : s.context.object? e = some o) : s.heap.descriptor o = d := by
  have was : a.context.object? e = some o := by rwa [← settled.object?]
  obtain ⟨inside, type⟩ := denotes.typed o was
  exact (settled.heap.descriptor o inside).trans type

variable (both : LoadState.LevelFrom env (e + 1) e a b s t)

include both

/-- The property element stands for no dictionary. -/
theorem filled_of_denotes (kind : d.kind ≠ .dictionary) (declared : d.property? p.name = some p)
    (type : p.type ≠ .dictionary) : Filled env (e + 1) e s t := by
  have stays : moved (e + 1) e = e := if_pos (Nat.lt_succ_self e)
  refine ⟨fun o object is => ?_, fun listed name is => ?_⟩
  · have type := descriptor_of_denotes denotes both.settled object
    exact absurd ((congrArg TypeDescriptor.kind type).symm.trans is) kind
  · obtain ⟨name', owner, is', split, -⟩ := denotes.name
    have same : name = name' := by
      rw [LoadState.node, both.settled'.tree] at is
      exact NodeKind.property.inj (is.symm.trans is')
    have parent : (t.node (e + 1)).parent = some e := by
      rw [stays] at listed
      exact both.tied'.child e (e + 1) listed
    unfold fillPropertyElement
    rw [start_get_bind, parent, Option.bind_some, ← stays, both.object?]
    cases object : s.context.object? e with
    | none => rfl
    | some o =>
      dsimp only
      rw [both.heap.descriptor, descriptor_of_denotes denotes both.settled object, same,
        afterLast_of_splitOwner? split, declared]
      dsimp only
      rw [if_neg type]
      rfl

end Denoting

/-- What is known when all values are there of loads of a document and of the one in which all that
is in `e` has been wrapped: the object of `e` has content, and the new node is the property element
that stands for it. -/
structure Wraps (e : Nat) (d : TypeDescriptor) (p : Property) (a b : LoadState) : Prop
    extends Denotes e d p a b where
  strict : a.context.tolerant = false
  object : (a.node e).isObject = true
  /-- The property element is all that is in `e`, if it has not been pruned. -/
  alone : e + 1 ∈ (b.node e).children → (b.node e).children = [e + 1]
  kinds : ∀ i, (b.node (moved (e + 1) i)).kind = (a.node i).kind
  content : ∀ c ∈ (a.node e).children, ∀ name, (a.node c).kind ≠ .property name

section Wrapping

variable {env : Environment} {e : Nat} {d : TypeDescriptor} {p : Property} {a b s t : LoadState}
  (has : d.HasContent p) (wraps : Wraps e d p a b)
  (both : LoadState.LevelFrom env (e + 1) e a b s t)

include has wraps both

/-- The object of `e` is of its type all the time, and so of plain kind. -/
theorem typed_of_wraps {o : ObjectId} (object : s.context.object? e = some o) :
    s.heap.descriptor o = d ∧ s.heap.kind o = .plain := by
  have type := descriptor_of_denotes wraps.toDenotes both.settled object
  exact ⟨type, (congrArg TypeDescriptor.kind type).trans has.plain⟩

/-- **Content is assigned alike**, unless a property that holds a single value gets several. -/
theorem applied_of_wraps (few : ∀ o, a.context.object? e = some o →
    p.type = .collection ∨ (a.node e).children.length ≤ 1) :
    Applied env (e + 1) e s t := by
  have stays : moved (e + 1) e = e := if_pos (Nat.lt_succ_self e)
  intro i listed object gives special
  have here : i = e := by
    refine special.resolve_right fun ⟨_, other⟩ => ?_
    rw [both.settled.tree] at other
    cases wraps.object.symm.trans other
  subst here
  obtain ⟨type, kind⟩ := typed_of_wraps has wraps both gives
  obtain ⟨name, owner, is, split, assignable⟩ := wraps.name
  have is : (t.tree.node (i + 1)).kind = .property name := by
    rw [both.settled'.tree]
    exact is
  have lists : (t.node (moved (i + 1) i)).children = [i + 1] := by
    rw [LoadState.node, both.settled'.tree, stays] at *
    exact wraps.alone listed
  have inside : (t.tree.node (i + 1)).children = (s.tree.node i).children.map (moved (i + 1)) :=
    both.tree.children_of_alone lists
  have values : (t.site env (moved (i + 1) i)).elementValues (i + 1) =
      (s.node i).children.filterMap (s.site env i).contentValue? := by
    rw [Site.elementValues_eq]
    show (t.tree.node (i + 1)).children.filterMap _ = _
    rw [inside, List.filterMap_map]
    refine congrArg (List.filterMap · _) (funext fun c => ?_)
    have kinds : (t.tree.node (moved (i + 1) c)).kind = (s.tree.node c).kind := by
      rw [both.settled.tree, both.settled'.tree]
      exact wraps.kinds c
    show (match (t.tree.node (moved (i + 1) c)).kind with
      | .text content => some (Value.string content)
      | _ => t.context.value? (moved (i + 1) c)) = _
    rw [kinds, both.value]
    rfl
  have type' : (t.site env (moved (i + 1) i)).heap.descriptor object = d :=
    (both.heap.descriptor object).trans type
  have applied := Site.applyChild_of_property (s := t.site env (moved (i + 1) i)) object (i + 1) is (Site.isDirective_of_splitOwner? split)
    (Site.target_of_own split (type' ▸ assignable) (type' ▸ has.declared))
  have few' : p.target.type = .collection ∨
      ((s.node i).children.filterMap (s.site env i).contentValue?).length ≤ 1 := by
    have was : a.context.object? i = some object := by rwa [← both.settled.object?]
    refine (few object was).imp_right fun few => Nat.le_trans (List.length_filterMap_le _ _) ?_
    rw [LoadState.node, both.settled.tree]
    exact few
  rw [values, Heap.assignAll_eq_foldlM _ _ has.type few'] at applied
  have chains := Heap.assigning_sameTypes.toChains
  have together := together_content (t := t) (k := t.heap) (e := i) name.localName
    ((t.site env (moved (i + 1) i)).tree.node (i + 1)).position both.toLevel
    (both.tolerant.trans (both.settled.tolerant.trans wraps.strict)) (.refl chains s) kind
    ((congrArg TypeDescriptor.contentTarget type).trans has.contentTarget) (s.node i).children
    fun c mem name => by
      rw [LoadState.node, both.settled.tree] at mem
      rw [both.settled.tree]
      exact wraps.content c mem name
  unfold applyChildren
  rw [start_get_bind, start_get_bind, both.heap.kind, kind]
  dsimp only
  rw [lists, start_forM_singleton, start_get_bind, applied]
  exact together

end Wrapping

/-- The property element has as many values in it as the element has children, if all of these have
values. -/
theorem length_elementValues_of_wraps {env : Environment} {e : Nat} {d : TypeDescriptor}
    {p : Property} {a b last : LoadState} {H : Heap → Heap → Prop} (wraps : Wraps e d p a b)
    (level : LoadState.Level env (e + 1) e a b)
    (valued : ∀ c ∈ (a.node e).children, (a.node c).isObject = true →
      (a.context.value? c).isSome) (since : b.Settled H last)
    (children : (b.tree.node (e + 1)).children = (a.node e).children.map (moved (e + 1))) :
    ((last.site env e).elementValues (e + 1)).length = (a.node e).children.length := by
  have tree : (last.site env e).tree = b.tree := since.tree
  have value : (last.site env e).context.value? = b.context.value? := by
    unfold LoadState.site Context.value?
    rw [since.values]
  have all : ∀ c' ∈ (b.tree.node (e + 1)).children,
      ((last.site env e).contentValue? c').isSome := by
    intro c' mem'
    rw [children] at mem'
    obtain ⟨c, mem, rfl⟩ := List.mem_map.1 mem'
    have kind : (b.tree.node (moved (e + 1) c)).kind = (a.node c).kind := wraps.kinds c
    unfold Site.contentValue?
    rw [tree, kind, value, level.value]
    cases is : (a.node c).kind with
    | text content => rfl
    | property name => exact absurd is (wraps.content c mem name)
    | root | element => exact valued c mem (by rw [NodeBody.isObject, is])
  rw [Site.elementValues_eq, tree, List.filterMap_length_eq_length.2 all, children, List.length_map]

end Load

/-! ## Both ways to write content -/

namespace NodeTree

/-- What is left of what is in an element, when nodes that may be ignored have been taken out. -/
def contentAt (t : NodeTree) (e : NodeId) : List NodeId :=
  let kept := t.without t.prunedNodes
  if e ∈ kept.reachable then (kept.node e).children else []

theorem Proper.contentAt_of_keeps {t : NodeTree} (proper : t.Proper) {e : NodeId}
    (keeps : t.Keeps t.prunedNodes e) :
    t.contentAt e = ((t.without t.prunedNodes).node e).children :=
  if_pos ((mem_preorder (proper.without _)).2 keeps)

/-- Where there is content left, the element has not been taken out. -/
theorem Proper.keeps_of_contentAt {t : NodeTree} (proper : t.Proper) {e : NodeId}
    (some : t.contentAt e ≠ []) : t.Keeps t.prunedNodes e := by
  unfold contentAt at some
  dsimp only at some
  split at some
  case isTrue mem => exact (mem_preorder (proper.without _)).1 mem
  case isFalse => exact absurd rfl some

/-- An element outside templates that has no property elements in it, and whose type gives it
content. -/
structure TakesContent (env : Environment) (t : NodeTree) (e : NodeId) (d : TypeDescriptor)
    (p : Property) : Prop where
  object : (t.node e).isObject = true
  outside : t.Reaches (t.templates env) root e
  typed : env.registry.get? (t.node e).typeName = some d
  scalar : ¬ (t.node e).toNodeBody.IsScalar
  has : d.HasContent p
  /-- The property has a property element: its name has no dot in it. -/
  plain : '.' ∉ p.name.toList
  content : ∀ c ∈ (t.node e).children, ∀ name, (t.node c).kind ≠ .property name

theorem TakesContent.templates {env : Environment} {t : NodeTree} {e : NodeId} {d : TypeDescriptor}
    {p : Property} (takes : t.TakesContent env e d p) : t.templates env e = false := by
  unfold NodeTree.templates Environment.isTemplate Registry.isTemplate
  rw [takes.typed]
  simp [takes.has.plain]

end NodeTree

namespace Request

variable {env : Environment} {h : Heap} {request request' : Request} {t u : NodeTree} {e : Nat}
  {d : TypeDescriptor} {p : Property} {a b : LoadState}

section Wrapped

variable (keyed : env.registry.Keyed) (fits : request.Fits h)
  (target : ∀ n, request.target? = some n → e = NodeTree.root → h.descriptor n = d)
  (versions : Versions t u request request') (same : u.unplaced = (t.wrapped e p.name).unplaced)
  (takes : t.TakesContent env e d p)

include versions same takes

theorem splices_of_versions : t.Splices u (e + 1) e ∧ t.Apart env u (e + 1) e := by
  have proper := versions.documents.1.proper
  have inside := proper.inside_of_reaches takes.outside
  refine ⟨NodeTree.splices_of_wrapped same inside takes.plain takes.object takes.scalar
    takes.content, fun _ q template c listed => ?_, fun _ template => ?_⟩
  · exact proper.not_reaches_of_loaded takes.outside template listed
  · cases takes.templates.symm.trans template

include keyed fits target

theorem wraps_of_versions (populated : request.Populated env false h a)
    (populated' : request'.Populated env false h b) : Load.Wraps e d p a b := by
  have inside := versions.documents.1.proper.inside_of_reaches takes.outside
  have left := versions.left fits populated
  have left' := versions.symm.left (versions.fits fits) populated'
  have body := NodeTree.body_of_unplaced same
  have kinds : ∀ i, (b.node i).kind = ((t.wrapped e p.name).node i).kind := fun i => by
    have kind := congrArg NodeBody.kind (body i)
    exact (left'.kind i).trans kind
  refine {
    typed := fun o gives => ?_
    name := ?_
    strict := left.tolerant
    object := ?_
    alone := fun listed => ?_
    kinds := fun i => ?_
    content := fun c mem name is => ?_ }
  · obtain ⟨inside, known | ⟨top, given, type⟩⟩ := versions.typed fits populated gives
    · exact ⟨inside, Option.some.inj (known.symm.trans takes.typed)⟩
    · exact ⟨inside, type.trans (target o given top)⟩
  · refine ⟨_, _, ?_, (t.node e).splitOwner?_wrapperName takes.plain,
      keyed.isAssignableTo takes.typed⟩
    rw [kinds, NodeTree.node_wrapped_new _ inside]
  · rw [NodeBody.isObject, left.kind]
    exact takes.object
  · have only : (u.node e).children = [e + 1] := by
      rw [NodeTree.children_of_unplaced same, NodeTree.node_wrapped_itself inside]
    rw [left'.children rfl, NodeTree.node_without] at listed ⊢
    dsimp only at listed ⊢
    rw [only] at listed ⊢
    exact List.filter_eq_self.2 fun c mem => by
      rw [List.mem_singleton.1 mem]
      exact (List.mem_filter.1 listed).2
  · rw [kinds, left.kind]
    exact congrArg NodeBody.kind (NodeTree.body_wrapped inside i)
  · rw [left.children rfl] at mem
    exact takes.content c (NodeTree.mem_children_without.1 mem).1 name ((left.kind c).symm.trans is)

/-- **Content is shorthand** for the property element of the content property, unless that gets
several values where the property holds one. -/
theorem akin_of_wrapped (blind : env.extensions.Blind)
    (few : p.type = .collection ∨ (t.contentAt e).length ≤ 1) :
    Outcome.Akin (request.outcome env false h) (request'.outcome env false h) := by
  obtain ⟨splices, apart⟩ := splices_of_versions versions same takes
  refine akin_of_splices versions splices apart blind fun a b populated populated' s s' both => ?_
  have wraps := wraps_of_versions keyed fits target versions same takes populated populated'
  refine ⟨Load.filled_of_denotes wraps.toDenotes both (by rw [takes.has.plain]; decide)
    takes.has.declared takes.has.type, ?_⟩
  have left := versions.left fits populated
  refine Load.applied_of_wraps takes.has wraps both fun o gives => few.imp_right fun few => ?_
  obtain ⟨value, held, -⟩ := Option.bind_eq_some_iff.1 gives
  rwa [left.children rfl, ← versions.documents.1.proper.contentAt_of_keeps (left.kept e value held)]

omit keyed target same in
/-- An element that has content left is loaded, with an object, and what is in it has values. -/
theorem loaded_of_content (filled : t.contentAt e ≠ [])
    (populated : request.Populated env false h a) :
    (a.node e).children = t.contentAt e ∧ a.tree.Reaches (a.isTemplate env) NodeTree.root e ∧
      (∃ o, a.context.object? e = some o) ∧
      ∀ c ∈ (a.node e).children, (a.node c).isObject = true → (a.context.value? c).isSome := by
  have proper := versions.documents.1.proper
  have left := versions.left fits populated
  have keeps := proper.keeps_of_contentAt filled
  have loaded : a.tree.Reaches (a.isTemplate env) NodeTree.root e := by
    refine (NodeTree.reaches_congr fun n _ => ⟨(left.children rfl n).symm, ?_⟩).1
      ((proper.reaches_without keeps).2 takes.outside)
    rw [left.isTemplate]
  refine ⟨by rw [left.children rfl, proper.contentAt_of_keeps keeps], loaded, ?_, ?_⟩
  · have object : (a.node e).isObject = true := by
      rw [NodeBody.isObject, left.kind]
      exact takes.object
    obtain ⟨value, held⟩ := left.valued e loaded object
    refine Option.ne_none_iff_exists'.1 fun none => takes.scalar (left.scalar e value held ?_)
    rwa [Context.object?, held] at none
  · intro c mem object
    have reached : a.tree.Reaches (a.isTemplate env) NodeTree.root c :=
      .child loaded (by rw [left.isTemplate, takes.templates]) mem
    obtain ⟨value, held⟩ := left.valued c reached object
    rw [held]
    rfl

/-- **Several values in the property element** of a property that holds one value are too many. -/
theorem fails_of_many (single : p.type ≠ .collection) (many : 1 < (t.contentAt e).length) :
    ∃ error, (request'.outcome env false h).result = .error error := by
  cases result : (request'.outcome env false h).result with
  | error error => exact ⟨error, rfl⟩
  | ok report =>
  exfalso
  obtain ⟨splices, apart⟩ := splices_of_versions versions same takes
  have proper := versions.documents.1.proper
  have stays : moved (e + 1) e = e := if_pos (Nat.lt_succ_self e)
  -- A load that does not fail comes to all its values, and so does the one of the first document.
  obtain ⟨run, ran, reported⟩ := exists_run_of_report result
  obtain ⟨b, populated', furnished⟩ := populated_of_run ran (Run.ended_of_report reported)
  obtain ⟨a, populated, level⟩ := versions.level splices apart populated'
  have wraps := wraps_of_versions keyed fits target versions same takes populated populated'
  have left' := versions.symm.left (versions.fits fits) populated'
  have filled : t.contentAt e ≠ [] := fun none => by
    rw [none] at many
    exact absurd many (by decide)
  obtain ⟨children, loaded, ⟨o, has⟩, valued⟩ :=
    loaded_of_content fits versions takes filled populated
  obtain ⟨inside, type⟩ := wraps.typed o has
  have type' : b.heap.descriptor o = d := (level.heap.descriptor o).trans type
  -- The property element is applied, with a value for each of the children.
  have listed : e + 1 ∈ (b.node e).children := by
    rw [left'.children rfl]
    refine NodeTree.mem_children_without.2 ⟨?_, splices.not_pruned versions.documents.2.1.proper⟩
    rw [NodeTree.children_of_unplaced same,
      NodeTree.node_wrapped_itself (proper.inside_of_reaches takes.outside)]
    exact List.mem_singleton_self _
  obtain ⟨last, after, since, applied⟩ := Load.exists_of_furnish (e := e) (c := e + 1)
    left'.tolerant (by rw [← stays, level.object?, has]) (level.heap.size ▸ inside)
    ((congrArg TypeDescriptor.kind type').trans takes.has.plain) listed level.proper'
    (stays ▸ (level.reaches_iff e).2 loaded) furnished
  obtain ⟨name, owner, is, split, assignable⟩ := wraps.name
  have children' : (b.tree.node (e + 1)).children = (a.node e).children.map (moved (e + 1)) := by
    refine level.tree.children_of_alone ?_
    rw [stays]
    exact wraps.alone listed
  have many' : 1 < ((last.site env e).elementValues (e + 1)).length := by
    rw [Load.length_elementValues_of_wraps wraps level valued since children', children]
    exact many
  have last' : (last.site env e).heap.descriptor o = d :=
    (since.heap.descriptor o (level.heap.size ▸ inside)).trans type'
  rw [Site.applyChild_of_property o (e + 1)
    (by rw [show (last.site env e).tree = b.tree from since.tree]; exact is)
    (Site.isDirective_of_splitOwner? split)
    (Site.target_of_own split (last' ▸ assignable) (last' ▸ takes.has.declared)),
    Heap.assignAll_of_many _ _ takes.has.type single many'] at applied
  cases applied

/--
**Content syntax is shorthand for the property element**, apart from how many values a property may
get. Let an element outside templates be of a type that gives it content, with no property elements
in it, and let all that is in it be wrapped in the property element of the content property.

If that property is a collection, or no more than one child is left of the element once nodes that
may be ignored have been taken out, strict loads of both documents have the same outcome: they fail
with errors of one kind, or leave the same objects under the same names. Otherwise the load of the
wrapped document fails.

An object to load into has to be of the type that the document names, if the element is the outermost
one.
-/
theorem content_syntax (blind : env.extensions.Blind) :
    (p.type = .collection ∨ (t.contentAt e).length ≤ 1 →
      Outcome.Akin (request.outcome env false h) (request'.outcome env false h)) ∧
    (¬ (p.type = .collection ∨ (t.contentAt e).length ≤ 1) →
      ∃ error, (request'.outcome env false h).result = .error error) := by
  refine ⟨akin_of_wrapped keyed fits target versions same takes blind, fun other => ?_⟩
  obtain ⟨single, many⟩ := not_or.1 other
  exact fails_of_many keyed fits target versions same takes single (Nat.lt_of_not_le many)

end Wrapped

/-- A label in a view, which is its content, and the label in the property element. -/
theorem content_syntax_view :
    let env : Environment := ⟨.controls, .builtIn⟩
    let start := "<StackLayout xmlns=\"http://xamarin.com/schemas/2014/forms\"><ContentView>"
    let label := "<Label Text=\"a\"/>"
    let ending := "</ContentView></StackLayout>"
    let markup := start ++ label ++ ending
    let markup' := start ++ "<ContentView.Content>" ++ label ++ "</ContentView.Content>" ++ ending
    let content : Property := ⟨"Content", .object (some "View")⟩
    env.registry.Keyed ∧ env.extensions.Blind ∧
      ∃ t u, Versions t u (create markup) (create markup') ∧
        u.unplaced = (t.wrapped 1 "Content").unplaced ∧
        t.TakesContent env 1 Controls.contentView content ∧ t.contentAt 1 = [2] ∧
        Outcome.Akin ((create markup).outcome env false .empty)
          ((create markup').outcome env false .empty) ∧
        ((create markup).outcome env false .empty).result.toOption.isSome = true := by
  intro env start label ending markup markup' content
  let forms (localName : String) : QName := ⟨formsNamespace, localName⟩
  let text (column : Nat) : Attribute := ⟨⟨"", "Text"⟩, .raw "a", ⟨1, column⟩⟩
  let root : Node :=
    ⟨⟨.root, forms "StackLayout", [], [], [("", formsNamespace)], ⟨1, 1⟩⟩, [1], none⟩
  let view : Node := ⟨⟨.element, forms "ContentView", [], [], [], ⟨1, 60⟩⟩, [2], none⟩
  let wrapper : QName := forms "ContentView.Content"
  let t : NodeTree := ⟨#[root, view,
    ⟨⟨.element, forms "Label", [], [text 80], [], ⟨1, 73⟩⟩, [], none⟩], []⟩
  let u : NodeTree := ⟨#[root, view,
    ⟨⟨.property wrapper, wrapper, [], [], [], ⟨1, 73⟩⟩, [3], none⟩,
    ⟨⟨.element, forms "Label", [], [text 101], [], ⟨1, 94⟩⟩, [], none⟩], []⟩
  have read : NodeTree.read markup = .ok t := NodeTree.read_of_toOption (by decide +kernel)
  have read' : NodeTree.read markup' = .ok u := NodeTree.read_of_toOption (by decide +kernel)
  have versions : Versions t u (create markup) (create markup') := .create read read'
  have known : env.registry.get? (forms "ContentView") = some Controls.contentView := rfl
  obtain ⟨same, left, succeeds⟩ : u.unplaced = (t.wrapped 1 "Content").unplaced ∧
      t.contentAt 1 = [2] ∧
      ((create markup).outcome env false .empty).result.toOption.isSome = true := by
    decide +kernel
  have takes : t.TakesContent env 1 Controls.contentView content := {
    object := rfl
    outside := .child .top rfl (List.mem_singleton_self 1)
    typed := known
    scalar := fun is => absurd is.language (by decide)
    has := ⟨rfl, rfl, rfl, by decide⟩
    plain := by decide
    content := fun c mem name is => by
      obtain rfl := List.mem_singleton.1 mem
      cases is }
  have keyed : env.registry.Keyed := Registry.keyed_controls
  have blind : env.extensions.Blind := Extensions.blind_builtIn
  have few : content.type = .collection ∨ (t.contentAt 1).length ≤ 1 :=
    .inr (left ▸ Nat.le_refl 1)
  have fits : (create markup).Fits .empty := trivial
  clear_value t u markup markup'
  have both := content_syntax keyed fits (fun n given => by cases given) versions same takes blind
  exact ⟨keyed, blind, t, u, versions, same, takes, left, both.1 few, succeeds⟩

/-- **Two labels in a view**: written directly, the second one takes the place of the first, and in
the property element they are too many. -/
theorem content_syntax_parts :
    let env : Environment := ⟨.controls, .builtIn⟩
    let start := "<ContentView xmlns=\"http://xamarin.com/schemas/2014/forms\">"
    let markup := start ++ "<Label/><Label/>" ++ "</ContentView>"
    let markup' := start ++ "<ContentView.Content><Label/><Label/></ContentView.Content>" ++
      "</ContentView>"
    let content : Property := ⟨"Content", .object (some "View")⟩
    ∃ t u, Versions t u (create markup) (create markup') ∧
      u.unplaced = (t.wrapped 0 "Content").unplaced ∧
      t.TakesContent env 0 Controls.contentView content ∧
      ((create markup).outcome env false .empty).result.toOption.isSome = true ∧
      (((create markup).outcome env false .empty).heap.get? 0 "Content").bind Value.object? =
        some 2 ∧
      ((create markup').outcome env false .empty).result.toOption.isSome = false := by
  intro env start markup markup' content
  let forms (localName : String) : QName := ⟨formsNamespace, localName⟩
  let view (children : List NodeId) : Node :=
    ⟨⟨.root, forms "ContentView", [], [], [("", formsNamespace)], ⟨1, 1⟩⟩, children, none⟩
  let label (column : Nat) : Node := ⟨⟨.element, forms "Label", [], [], [], ⟨1, column⟩⟩, [], none⟩
  let wrapper : QName := forms "ContentView.Content"
  let t : NodeTree := ⟨#[view [1, 2], label 60, label 68], []⟩
  let u : NodeTree := ⟨#[view [1], ⟨⟨.property wrapper, wrapper, [], [], [], ⟨1, 60⟩⟩, [2, 3], none⟩,
    label 81, label 89], []⟩
  have read : NodeTree.read markup = .ok t := NodeTree.read_of_toOption (by decide +kernel)
  have read' : NodeTree.read markup' = .ok u := NodeTree.read_of_toOption (by decide +kernel)
  have takes : t.TakesContent env 0 Controls.contentView content := {
    object := rfl
    outside := .top
    typed := rfl
    scalar := fun is => absurd is.language (by decide)
    has := ⟨rfl, rfl, rfl, by decide⟩
    plain := by decide
    content := fun c mem name is => by
      obtain rfl | rfl : c = 1 ∨ c = 2 := by simpa using (show c ∈ [1, 2] from mem)
      all_goals cases is }
  exact ⟨t, u, .create read read', by decide +kernel, takes, by decide +kernel, by decide +kernel,
    by decide +kernel⟩

end Request

end MarkupLoader
