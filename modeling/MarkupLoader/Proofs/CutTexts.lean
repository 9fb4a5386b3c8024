import MarkupLoader.Proofs.AbreastRequests
import MarkupLoader.Proofs.Halving

/-!
# Loads of documents with a text cut in two

A load sees a text in two parts as two values, each of which is assigned on its own. **It makes no
difference where no text is taken** (`PropertyType.Takes`): then each part fails as the whole text
does, and so it is as well where a property element gets a value too many.

* **In an object**, each text is assigned to the content property. A strict load stops at the first
  one that fails, whatever else there is (`fails_applyChildren`); a tolerant one passes over one
  failure more (`passes_of_error`).
* **In a property element**, all values are assigned at once, and two texts are too many for a property
  that holds one value.

Main results: `fails_applyChildren`, `applied_of_cut`.
-/

namespace MarkupLoader

open NodeTree (moved)

/-! ## Texts that are not taken -/

/-- A value of the type is read from the text, or the text is added to a collection. -/
def PropertyType.Takes (type : PropertyType) (text : String) : Prop :=
  type = .collection ∨ (coerceText text type).toOption.isSome = true

instance (type : PropertyType) (text : String) : Decidable (type.Takes text) :=
  inferInstanceAs (Decidable (_ ∨ _))

/-- Objects of the kind have their content assigned to a property, or take it as items. -/
def TypeKind.Contains (kind : TypeKind) : Prop := kind = .plain ∨ kind = .collection

instance (kind : TypeKind) : Decidable kind.Contains := inferInstanceAs (Decidable (_ ∨ _))

namespace Heap

/-- A text that is not taken is not assigned. -/
theorem assign_of_not_takes (h : Heap) (object : ObjectId) {target : Target} {text : String}
    (refused : ¬ target.type.Takes text) :
    ∃ fault, h.assign object target (.string text) = .error fault := by
  obtain ⟨other, unread⟩ := not_or.1 refused
  have coerced : h.coerce (.string text) target.type = coerceText text target.type := by
    cases target.type <;> rfl
  unfold assign
  rw [if_neg other, coerced]
  cases reads : coerceText text target.type with
  | ok value =>
    rw [reads] at unread
    exact absurd rfl unread
  | error fault => exact ⟨_, rfl⟩

/-- A property element fails with a text that is not taken, and with several values. -/
theorem assignAll_of_not_takes (h : Heap) (object : ObjectId) {target : Target} {text : String}
    (refused : ¬ target.type.Takes text) (type : target.type ≠ .dictionary) {values : List Value}
    (given : .string text ∈ values ∨ 1 < values.length) :
    ∃ fault, h.assignAll object target values = .error fault := by
  unfold assignAll
  rw [if_neg type, if_neg fun is => refused (.inl is)]
  match values with
  | [] => simp at given
  | [value] =>
    obtain rfl := List.mem_singleton.1 (given.resolve_right (by simp))
    exact h.assign_of_not_takes object refused
  | _ :: _ :: _ => exact ⟨_, rfl⟩

end Heap

namespace Site

variable {s : Site} {object : ObjectId} {child : NodeId}

/-- All failures of children are of one kind. -/
theorem coercion_of_applyChild {error : LoadError} (failed : s.applyChild object child = .error error) :
    ∃ property message position, error = .coercion property message position := by
  have coercion {step : Except AssignmentFault Heap} {property : String} {position : Position}
      (failed : step.mapError (fun fault => .coercion property fault.message position) =
        .error error) : ∃ property message position, error = .coercion property message position := by
    obtain ⟨fault, -, is⟩ := error_of_mapError failed
    exact ⟨_, _, _, is.symm⟩
  unfold applyChild at failed
  dsimp only at failed
  split at failed
  · exact coercion failed
  · split at failed
    · cases failed
    · exact coercion failed
  · exact coercion failed

/-- A text fails in an object that does not take it. -/
theorem applyChild_of_text {text : String} (is : (s.tree.node child).kind = .text text)
    (refused : ∀ target, (s.heap.descriptor object).contentTarget = .ok target →
      ¬ target.type.Takes text) :
    ∃ error, s.applyChild object child = .error error := by
  unfold applyChild
  dsimp only
  rw [is]
  unfold assignContent
  cases takes : (s.heap.descriptor object).contentTarget with
  | error fault => exact ⟨_, rfl⟩
  | ok target =>
    obtain ⟨fault, failed⟩ := s.heap.assign_of_not_takes object (refused target takes)
    exact ⟨_, congrArg (Except.mapError _) failed⟩

end Site

/-- Two members that are mapped give two results. -/
theorem one_lt_length_filterMap {α β : Type} {f : α → Option β} {list : List α} {i j : α}
    (first : i ∈ list) (second : j ∈ list) (other : i ≠ j) (some : (f i).isSome)
    (some' : (f j).isSome) : 1 < (list.filterMap f).length := by
  have pos : ∀ {k} {rest : List α}, k ∈ rest → (f k).isSome → 0 < (rest.filterMap f).length :=
    fun mem some => by
      obtain ⟨value, is⟩ := Option.isSome_iff_exists.1 some
      exact List.length_pos_of_mem (List.mem_filterMap.2 ⟨_, mem, is⟩)
  induction list with
  | nil => cases first
  | cons k rest ih =>
    rcases List.mem_cons.1 first with rfl | first' <;>
      rcases List.mem_cons.1 second with rfl | second'
    · exact absurd rfl other
    · obtain ⟨value, is⟩ := Option.isSome_iff_exists.1 some
      rw [List.filterMap_cons_some is]
      exact Nat.succ_lt_succ (pos second' some')
    · obtain ⟨value, is⟩ := Option.isSome_iff_exists.1 some'
      rw [List.filterMap_cons_some is]
      exact Nat.succ_lt_succ (pos first' some)
    · refine Nat.lt_of_lt_of_le (ih first' second') ?_
      cases is : f k with
      | none => rw [List.filterMap_cons_none is]
      | some value =>
        rw [List.filterMap_cons_some is]
        exact Nat.le_succ _

namespace Load

/-! ## Loops that fail -/

/-- **A loop fails**, if one of its rounds does whenever it comes. The failure may be one of another
round. -/
theorem fails_forM {H : Heap → Heap → Prop} {α : Type} {step : α → Load Unit} {list : List α}
    {s : LoadState} {P : LoadError → Prop} (chains : Heap.Chains H)
    (settles : ∀ c, Settles H (step c))
    (kinds : ∀ c ∈ list, ∀ t error u, s.Settled H t → (step c).start t = (.error error, u) → P error)
    {c : α} (mem : c ∈ list) (fails : ∀ t, s.Settled H t → ∃ error u, (step c).start t = (.error error, u)) :
    ∃ error u, (list.forM step).start s = (.error error, u) ∧ P error := by
  induction list generalizing s with
  | nil => cases mem
  | cons d rest ih =>
    obtain ⟨here, later⟩ := List.forall_mem_cons.1 kinds
    rw [start_forM_cons, start_bind]
    rcases ran : (step d).start s with ⟨error | _, t⟩
    · exact ⟨error, t, rfl, here s error t (.refl chains s) ran⟩
    · have since := (settles d).ran ran
      have mem : c ∈ rest := by
        refine (List.mem_cons.1 mem).resolve_left fun is => ?_
        obtain ⟨error, u, failed⟩ := fails s (.refl chains s)
        rw [is, ran] at failed
        cases failed
      exact ih (fun c mem t' error u after => later c mem t' error u (since.trans chains after)) mem
        fun t' after => fails t' (since.trans chains after)

/-- Applies one child of a node to its object. -/
def applyChild (env : Environment) (id : NodeId) (object : ObjectId) (child : NodeId) :
    Load Unit := do
  let s ← get
  changeHeap ((s.site env id).applyChild object child)

theorem settles_applyChild (env : Environment) (id : NodeId) (object : ObjectId) (child : NodeId) :
    Settles Heap.Retains (applyChild env id object child) := fun _ =>
  settles_changeHeap Heap.assigning_retains.toChains fun _ =>
    (Heap.assigning_retains.toWriting.to object).child

/-- Objects with content of their own have their children applied one by one. -/
theorem start_applyChildren (env : Environment) {i : NodeId} {object : ObjectId} {s : LoadState}
    (contains : (s.heap.kind object).Contains) : (applyChildren env i object).start s =
      ((s.node i).children.forM (applyChild env i object)).start s := by
  unfold applyChildren
  rw [start_get_bind]
  rcases contains with is | is
  · rw [is]
    rfl
  · rw [is]
    rfl

/-- **A strict load fails at a node** of which one child does, whatever the others are. -/
theorem fails_applyChildren {env : Environment} {i c : NodeId} {object : ObjectId} {s : LoadState}
    (strict : s.context.tolerant = false) (kind : (s.heap.kind object).Contains)
    (listed : c ∈ (s.node i).children)
    (fails : ∀ t, s.Settled Heap.Retains t →
      ∃ error, (t.site env i).applyChild object c = .error error) :
    ∃ property message position t,
      (applyChildren env i object).start s = (.error (.coercion property message position), t) := by
  have chains := Heap.assigning_retains.toChains
  have failing : ∀ {t child error}, s.Settled Heap.Retains t →
      (t.site env i).applyChild object child = .error error →
      (applyChild env i object child).start t = (.error error, t) := by
    intro t child error since failed
    show (changeHeap ((t.site env i).applyChild object child)).start t = _
    rw [failed]
    exact start_changeHeap_strict (since.tolerant.trans strict) error
  have kinds : ∀ child ∈ (s.node i).children, ∀ t error u, s.Settled Heap.Retains t →
      (applyChild env i object child).start t = (.error error, u) →
      ∃ property message position, error = .coercion property message position := by
    intro child _ t error u since ran
    cases applied : (t.site env i).applyChild object child with
    | error failure =>
      rw [failing since applied] at ran
      cases ran
      exact Site.coercion_of_applyChild applied
    | ok h =>
      have done : (applyChild env i object child).start t = (.ok (), { t with heap := h }) := by
        show (changeHeap ((t.site env i).applyChild object child)).start t = _
        rw [applied]
        rfl
      cases done.symm.trans ran
  obtain ⟨_, t, ran, property, message, position, rfl⟩ :=
    fails_forM chains (settles_applyChild env i object) kinds listed fun t since => by
      obtain ⟨error, failed⟩ := fails t since
      exact ⟨error, t, failing since failed⟩
  rw [start_applyChildren env kind]
  exact ⟨property, message, position, t, ran⟩

/-! ## Where a text is cut in two -/

/-- What is known when all values are there of loads of a document and of the one in which the text at
`c` has been cut in two. -/
structure Cuts (c p : Nat) (whole first second : String) (a b : LoadState) : Prop where
  listed : c ∈ (a.node p).children
  text : (a.node c).kind = .text whole
  one : (b.node c).kind = .text first
  two : (b.node (c + 1)).kind = .text second
  kinds : ∀ i, i ≠ c → (b.node (moved (c + 1) i)).kind = (a.node i).kind

/-- The text in `p`, or its parts, are not taken: not by the object of `p`, and if `p` is a property
element, the whole text is not taken by what that stands for. -/
structure Spurns (env : Environment) (p : NodeId) (whole : String) (parts : List String)
    (a : LoadState) : Prop where
  inside : ∀ i object, a.context.object? i = some object → object < a.heap.size
  content : ∀ object target, a.context.object? p = some object → (a.heap.kind object).Contains →
    (a.heap.descriptor object).contentTarget = .ok target →
    ∀ text ∈ whole :: parts, ¬ target.type.Takes text
  element : ∀ q object name target, p ∈ (a.node q).children → (a.node p).kind = .property name →
    name.isDirective "Arguments" = false → a.context.object? q = some object →
    (a.heap.kind object).Contains →
    (a.site env q).target (a.heap.descriptor object) name = .ok target → ¬ target.type.Takes whole

section Cutting

variable {env : Environment} {c p : Nat} {whole first second : String} {a b s t : LoadState}
  (cuts : Cuts c p whole first second a b) (both : LoadState.LevelFrom env (c + 1) p a b s t)

include cuts both

variable (spurns : Spurns env p whole [first, second] a)

include spurns

omit cuts in
/-- An object keeps the type that it has when all values are there. -/
theorem descriptor_of_cut {i : NodeId} {object : ObjectId} (gives : s.context.object? i = some object) :
    a.context.object? i = some object ∧ s.heap.descriptor object = a.heap.descriptor object := by
  have was : a.context.object? i = some object := by rwa [← both.settled.object?]
  exact ⟨was, both.settled.heap.descriptor object (spurns.inside i object was)⟩

/-- **In an object that takes none of the texts**, each of them fails. -/
theorem together_content_of_cut {object : ObjectId} (gives : s.context.object? p = some object)
    (contains : (s.heap.kind object).Contains)
    (listed : c + 1 ∈ (t.tree.node (moved (c + 1) p)).children) :
    TogetherDone (LoadState.Level env (c + 1) p) ((applyChildren env p object).start s)
      ((applyChildren env (moved (c + 1) p) object).start t) := by
  obtain ⟨was, type⟩ := descriptor_of_cut both spurns gives
  have stays : moved (c + 1) c = c := if_pos (Nat.lt_succ_self c)
  have chains := Heap.filling_retains.toChains
  have small := Nat.lt_of_lt_of_le (spurns.inside p object was) both.settled.heap.size
  have kind : s.heap.kind object = a.heap.kind object := congrArg TypeDescriptor.kind type
  have refused : ∀ text ∈ [whole, first, second], ∀ target,
      (s.heap.descriptor object).contentTarget = .ok target → ¬ target.type.Takes text :=
    fun text mem target takes =>
      spurns.content object target was (kind ▸ contains) (type ▸ takes) text mem
  have refused₁ : ∀ s', s.Settled Heap.Retains s' →
      ∃ error, (s'.site env p).applyChild object c = .error error := fun s' since => by
    have is : (s'.tree.node c).kind = .text whole := by
      rw [since.tree, both.settled.tree]
      exact cuts.text
    refine (s'.site env p).applyChild_of_text is fun target takes =>
      refused whole List.mem_cons_self target ?_
    rwa [← since.heap.descriptor object small]
  have refused₂ : ∀ i text, text ∈ [first, second] → (b.node i).kind = .text text →
      ∀ t', t.Settled Heap.Retains t' →
        ∃ error, (t'.site env (moved (c + 1) p)).applyChild object i = .error error := by
    intro i text mem is t' since
    have is' : (t'.tree.node i).kind = .text text := by
      rw [since.tree, both.settled'.tree]
      exact is
    refine (t'.site env (moved (c + 1) p)).applyChild_of_text is' fun target takes =>
      refused text (List.mem_cons_of_mem _ mem) target ?_
    rwa [← both.heap.descriptor, ← since.heap.descriptor object (both.heap.size ▸ small)]
  have failsTwo := refused₂ (c + 1) second (by simp) cuts.two
  cases flag : s.context.tolerant with
  | false =>
    have here : c ∈ (s.node p).children := by
      rw [LoadState.node, both.settled.tree]
      exact cuts.listed
    obtain ⟨_, _, _, s', fails⟩ := fails_applyChildren flag contains here refused₁
    obtain ⟨_, _, _, t', fails'⟩ := fails_applyChildren (both.tolerant.trans flag)
      (by rw [both.heap.kind]; exact contains) listed failsTwo
    rw [fails, fails']
    exact .error rfl
  | true =>
    refine together_applyChildren_of both.toLevel object ?_ (fun i mem s' t' later => ?_)
      fun _ s' t' later => ?_
    · exact both.tree.children_filter fun listed => leaf_of_text both cuts.two listed
    · by_cases here : i = c
      · obtain ⟨error, fails⟩ := refused₁ s' later.settled
        obtain ⟨error', fails'⟩ := refused₂ c first (by simp) cuts.one t' later.settled'
        obtain ⟨_, _, _, rfl⟩ := Site.coercion_of_applyChild fails
        obtain ⟨_, _, _, rfl⟩ := Site.coercion_of_applyChild fails'
        rw [here, stays, fails, fails']
        exact .error rfl
      · refine kindred_applyChild later.toLevel p object ?_ fun _ _ _ is => ?_
        · rw [later.settled.tree, later.settled'.tree, both.settled.tree, both.settled'.tree]
          exact cuts.kinds i here
        · exact Nat.lt_irrefl p (is ▸ both.proper.later p i mem)
    · obtain ⟨error, fails⟩ := failsTwo t' later.settled'
      obtain ⟨_, _, _, rfl⟩ := Site.coercion_of_applyChild fails
      exact passes_of_error later (both.tolerant.trans flag) rfl fails

/-- **A property element that does not take the text** does not take its parts either. -/
theorem kindred_element_of_cut {q : NodeId} {object : ObjectId} (gives : s.context.object? q = some object)
    (contains : (s.heap.kind object).Contains) (inside : p ∈ (s.tree.node q).children)
    (listed : c + 1 ∈ (t.tree.node (moved (c + 1) p)).children) {name : QName}
    (is : (s.tree.node p).kind = .property name) :
    Kindred Heap.Akin ((s.site env q).applyChild object p)
      ((t.site env (moved (c + 1) q)).applyChild object (moved (c + 1) p)) := by
  obtain ⟨was, type⟩ := descriptor_of_cut both spurns gives
  have stays : moved (c + 1) c = c := if_pos (Nat.lt_succ_self c)
  have is' : (t.tree.node (moved (c + 1) p)).kind = .property name :=
    (both.tree.kind_eq fun text kind => by cases is.symm.trans kind).trans is
  have kind : s.heap.kind object = a.heap.kind object := congrArg TypeDescriptor.kind type
  have shows : ∀ target, (s.site env q).target (s.heap.descriptor object) name = .ok target →
      name.isDirective "Arguments" = false → ¬ target.type.Takes whole := by
    intro target takes plain
    have same : (s.site env q).target = (a.site env q).target :=
      Site.target_congr rfl (by rw [show (s.site env q).tree = a.tree from both.settled.tree]; rfl)
        (by rw [show (s.site env q).tree = a.tree from both.settled.tree]; rfl)
    rw [same, type] at takes
    rw [both.settled.tree] at inside is
    exact spurns.element q object name target inside is plain was (kind ▸ contains) takes
  have here : c ∈ (s.tree.node p).children := by
    rw [both.settled.tree]
    exact cuts.listed
  have given : .string whole ∈ (s.site env q).elementValues p := by
    refine List.mem_filterMap.2 ⟨c, here, ?_⟩
    rw [show ((s.site env q).tree.node c).kind = .text whole by
      rw [show (s.site env q).tree = a.tree from both.settled.tree]
      exact cuts.text]
  -- Both parts are values of the property element.
  have many : 1 < ((t.site env (moved (c + 1) q)).elementValues (moved (c + 1) p)).length := by
    have here' : c ∈ (t.tree.node (moved (c + 1) p)).children := by
      have moves := (both.tree.listed_moved here).resolve_right fun ⟨listed, inside⟩ => by
        rw [leaf_of_text both cuts.two listed] at inside
        cases inside
      rwa [stays] at moves
    have tree : (t.site env (moved (c + 1) q)).tree = b.tree := both.settled'.tree
    refine one_lt_length_filterMap here' listed (Nat.ne_of_lt (Nat.lt_succ_self c)) ?_ ?_
    · rw [tree, show (b.tree.node c).kind = _ from cuts.one]
      rfl
    · rw [tree, show (b.tree.node (c + 1)).kind = _ from cuts.two]
      rfl
  unfold Site.applyChild
  dsimp only
  rw [show ((s.site env q).tree.node p).kind = _ from is,
    show ((t.site env (moved (c + 1) q)).tree.node (moved (c + 1) p)).kind = _ from is']
  dsimp only
  split
  · exact .ok both.heap
  case isFalse plain =>
    unfold Site.applyElement
    rw [target_of_level both.toLevel,
      show (t.site env (moved (c + 1) q)).heap.descriptor object = _ from both.heap.descriptor object]
    show Kindred _ (Except.mapError _ ((s.site env q).target (s.heap.descriptor object) name >>= _))
      (Except.mapError _ ((s.site env q).target (s.heap.descriptor object) name >>= _))
    cases takes : (s.site env q).target (s.heap.descriptor object) name with
    | error fault => exact .error rfl
    | ok target =>
      have refused := shows target takes (Bool.eq_false_iff.2 plain)
      show Kindred _ (Except.mapError _ (s.heap.assignAll object target _))
        (Except.mapError _ (t.heap.assignAll object target _))
      by_cases dictionary : target.type = .dictionary
      · unfold Heap.assignAll
        rw [if_pos dictionary, if_pos dictionary]
        exact .ok both.heap
      · obtain ⟨fault, fails⟩ := s.heap.assignAll_of_not_takes object refused dictionary (.inl given)
        obtain ⟨fault', fails'⟩ := t.heap.assignAll_of_not_takes object refused dictionary (.inr many)
        rw [fails, fails']
        exact .error rfl

/-- **Where none of the texts is taken**, loads go on alike. -/
theorem applied_of_cut : Applied env (c + 1) p s t := by
  intro i listed object gives special
  by_cases contains : (s.heap.kind object).Contains
  · rcases special with rfl | ⟨inside, other⟩
    · exact together_content_of_cut cuts both spurns gives contains listed
    · have chains := Heap.filling_retains.toChains
      have above : i ≠ p := Nat.ne_of_lt (both.proper.later i p inside)
      have unlisted : c + 1 ∉ (t.tree.node (moved (c + 1) i)).children := fun listed =>
        above (both.tree.listed_iff.1 listed).1
      refine together_applyChildren_of both.toLevel object ?_ (fun j mem s' t' later => ?_)
        fun listed => absurd listed unlisted
      · exact both.tree.children_filter fun listed => absurd listed unlisted
      -- Of the children only the property element itself sees what is in it.
      have both' : LoadState.LevelFrom env (c + 1) p a b s' t' :=
        ⟨later.toLevel, both.settled.trans chains later.settled,
          both.settled'.trans chains later.settled'⟩
      have apart : j ≠ c := by
        rintro rfl
        rw [LoadState.node, both.settled.tree] at mem
        have proper : a.tree.Proper := both.settled.tree ▸ both.proper
        exact above (proper.once _ _ _ mem cuts.listed)
      by_cases element : j = p ∧ ∃ name, (s'.tree.node p).kind = .property name
      · obtain ⟨rfl, name, is⟩ := element
        have gives' : s'.context.object? i = some object := by rwa [later.settled.object?]
        have type := (descriptor_of_cut both' spurns gives').2.trans
          (descriptor_of_cut both spurns gives).2.symm
        refine kindred_element_of_cut cuts both' spurns gives' ?_ ?_ ?_ is
        · rwa [show s'.heap.kind object = s.heap.kind object from congrArg TypeDescriptor.kind type]
        · rwa [later.settled.tree]
        · rwa [later.settled'.tree]
      · refine kindred_applyChild later.toLevel i object ?_ fun name is _ here => ?_
        · rw [later.settled.tree, later.settled'.tree, both.settled.tree, both.settled'.tree]
          exact cuts.kinds j apart
        · exact element ⟨here, name, here ▸ is⟩
  · unfold applyChildren
    rw [start_get_bind, start_get_bind, both.heap.kind]
    cases kind : s.heap.kind object with
    | dictionary => exact together_done both.toLevel
    | template => exact together_done both.toLevel
    | plain => exact absurd (.inl kind) contains
    | collection => exact absurd (.inr kind) contains

end Cutting

end Load

end MarkupLoader
