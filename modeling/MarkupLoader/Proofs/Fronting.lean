import MarkupLoader.Proofs.CutTexts
import MarkupLoader.Proofs.Plucking
import MarkupLoader.Proofs.Wrapping

/-!
# Property elements in place of attributes

A text that an attribute gives to a property may also stand in a property element. **The document
with the property element** (`NodeTree.inElement`) is come to in three steps: an empty property
element is put in front of all that is in the element (`NodeTree.fronted`), the attribute is taken
away (`NodeTree.bared`), and the text is put into the property element.

Of these, the first and the last give the document a node more, and the one in between takes an
attribute away.

Main results: `splices_fronted`, `plucked_bared`, `splices_inElement`.
-/

namespace MarkupLoader

open NodeTree (moved)

/-- A property element as far as it says anything itself. -/
def NodeBody.ofProperty (name : QName) : NodeBody := ⟨.property name, name, [], [], [], .nowhere⟩

namespace NodeTree

/-- The document with an empty property element in front of all that is in `e`. -/
def fronted (t : NodeTree) (e : Nat) (property : String) : NodeTree :=
  t.insertFirst e (.ofProperty ((t.node e).wrapperName property))

/-- The document that has the empty property element in place of the last attribute of `e`. -/
def bared (t : NodeTree) (e : Nat) (property : String) : NodeTree :=
  (t.fronted e property).setAttributes e (t.node e).attributes.dropLast

/-- **The document that has a property element with a text** in place of the last attribute of `e`,
in front of all that is in `e`. -/
def inElement (t : NodeTree) (e : Nat) (property text : String) : NodeTree :=
  (t.bared e property).insertFirst (e + 1) (.ofText text .nowhere)

/-- An element outside templates whose last attribute gives a text to a property of its type, and
may not be ignored. -/
structure GivesText (env : Environment) (t : NodeTree) (e : NodeId) (d : TypeDescriptor)
    (p : Property) (text : String) : Prop where
  object : (t.node e).isObject = true
  outside : t.Reaches (t.templates env) root e
  typed : env.registry.get? (t.node e).typeName = some d
  contains : d.kind.Contains
  declared : d.property? p.name = some p
  type : p.type ≠ .dictionary
  /-- The property has a property element: its name has no dot in it. -/
  plain : '.' ∉ p.name.toList
  last : ∃ position, (t.node e).attributes.getLast? =
    some ⟨⟨"", p.name⟩, .raw (AttributeText.literal text), position⟩
  counts : t.isIgnorable "" = false

section Fronted

variable {env : Environment} {t u : NodeTree} {e : Nat} {d : TypeDescriptor} {p : Property}
  {text : String}

/-- An object that takes content in it is no template. -/
theorem GivesText.templates (gives : t.GivesText env e d p text) : t.templates env e = false := by
  unfold NodeTree.templates Environment.isTemplate Registry.isTemplate
  rw [gives.typed]
  rcases gives.contains with kind | kind <;> simp [kind]

variable (laid : t.Laid) (gives : t.GivesText env e d p text)

include laid gives

theorem GivesText.inside : e < t.size := laid.proper.inside_of_reaches gives.outside

theorem node_fronted_new : (t.fronted e p.name).node (e + 1) =
    ⟨.ofProperty ((t.node e).wrapperName p.name), [], none⟩ :=
  node_grown_new _ _ (gives.inside laid)

theorem node_fronted_itself : (t.fronted e p.name).node e =
    { t.node e with children := (e + 1) :: (t.node e).children.map (moved (e + 1)) } :=
  node_grown_itself _ _ (gives.inside laid)

theorem laid_fronted : (t.fronted e p.name).Laid := laid.insertFirst (gives.inside laid) _

/-- **The document with the empty property element has a node more.** -/
theorem splices_fronted : t.Splices (t.fronted e p.name) (e + 1) e := by
  have inside := gives.inside laid
  have new := node_fronted_new laid gives
  refine splices_insertFirst rfl inside (.empty (congrArg (·.kind) new) ?_ ?_
    (congrArg (·.children) new)) rfl rfl fun _ _ => ?_
  · exact Site.isDirective_of_splitOwner? ((t.node e).splitOwner?_wrapperName gives.plain)
  · exact congrArg (·.typeName.namespaceUri) new
  · -- Texts are joined that stand in the element itself.
    unfold NodeTree.textContent
    rw [node_fronted_itself laid gives, List.filterMap_cons_none (by rw [new]; rfl),
      List.filterMap_map]
    refine congrArg (fun f => String.join (List.filterMap f _)) (funext fun c => ?_)
    have kind : ((t.fronted e p.name).node (moved (e + 1) c)).kind = (t.node c).kind :=
      congrArg NodeBody.kind (body_grown inside c)
    rw [Function.comp_apply, kind]

theorem apart_fronted : t.Apart env (t.fronted e p.name) (e + 1) e where
  outside _ _ template _ listed := laid.proper.not_reaches_of_loaded gives.outside template listed
  leaf _ template := by cases gives.templates.symm.trans template

/-- The element and the property element in it are loaded. -/
theorem outside_fronted :
    (t.fronted e p.name).Reaches ((t.fronted e p.name).templates env) root e ∧
      (t.fronted e p.name).Reaches ((t.fronted e p.name).templates env) root (e + 1) := by
  have splices := splices_fronted laid gives
  have stays : moved (e + 1) e = e := moved_of_lt (Nat.lt_succ_self e)
  have templates : ∀ i, (t.fronted e p.name).templates env (moved (e + 1) i) = t.templates env i :=
    splices.isTemplate env
  have here : (t.fronted e p.name).Reaches ((t.fronted e p.name).templates env) root e := by
    have reached := (splices.reaches_iff laid.proper (laid_fronted laid gives).proper templates
      (fun _ _ _ => by rw [node_fronted_new laid gives]) e).2 gives.outside
    rwa [stays] at reached
  refine ⟨here, .child here ?_ ?_⟩
  · rw [← gives.templates, ← templates, stays]
  · rw [node_fronted_itself laid gives]
    exact List.mem_cons_self

/-- **The last attribute is all that the one document has more** than the other one. -/
theorem plucked_bared : ∃ c, (t.fronted e p.name).Plucked (t.bared e p.name) e c ∧
    c.name = ⟨"", p.name⟩ ∧ c.value = .raw (AttributeText.literal text) := by
  obtain ⟨position, last⟩ := gives.last
  have retouches := (t.fronted e p.name).retouches_setAttributes e (t.node e).attributes.dropLast
  have inside : e < (t.fronted e p.name).size :=
    (laid_fronted laid gives).proper.inside_of_reaches (outside_fronted laid gives).1
  refine ⟨⟨⟨"", p.name⟩, .raw (AttributeText.literal text), position⟩,
    ⟨retouches, ?_, fun i other => ?_⟩, rfl, rfl⟩
  · rw [bared, node_setAttributes, if_pos ⟨rfl, inside⟩, node_fronted_itself laid gives]
    exact (List.dropLast_append_getLast? _ last).symm
  · rw [bared, node_setAttributes, if_neg fun h => other h.1]

theorem laid_bared : (t.bared e p.name).Laid :=
  (laid_fronted laid gives).of_retouches ((t.fronted e p.name).retouches_setAttributes e _)

/-- The property element is loaded without the attribute as well. -/
theorem outside_bared :
    (t.bared e p.name).Reaches ((t.bared e p.name).templates env) root (e + 1) := by
  obtain ⟨c, plucked, -, -⟩ := plucked_bared laid gives
  exact (outside_fronted laid gives).2.congr fun n _ =>
    ⟨plucked.retouches.children n, plucked.isTemplate env n⟩

section Written

variable (same : u.unplaced = (t.inElement e p.name text).unplaced)

include same

/-- What is written in the property element, and that it is written for the property. -/
theorem nodes_inElement :
    (u.node (e + 1)).kind = .property ((t.node e).wrapperName p.name) ∧
      (u.node (e + 1)).children = [e + 2] ∧ (u.node (e + 2)).kind = .text text ∧
      (u.node (e + 2)).children = [] := by
  have retouches := (t.fronted e p.name).retouches_setAttributes e (t.node e).attributes.dropLast
  have inside := (laid_bared laid gives).proper.inside_of_reaches (outside_bared laid gives)
  have before : (t.bared e p.name).node (e + 1) =
      { (t.fronted e p.name).node (e + 1) with
        attributes := ((t.bared e p.name).node (e + 1)).attributes } := retouches.node (e + 1)
  have holder : (t.inElement e p.name text).node (e + 1) =
      { (t.bared e p.name).node (e + 1) with
        children := (e + 2) :: ((t.bared e p.name).node (e + 1)).children.map (moved (e + 2)) } :=
    node_grown_itself _ _ inside
  have new : (t.inElement e p.name text).node (e + 2) = ⟨.ofText text .nowhere, [], none⟩ :=
    node_grown_new _ _ inside
  rw [kind_of_unplaced same, kind_of_unplaced same, children_of_unplaced same,
    children_of_unplaced same, holder, new, before, node_fronted_new laid gives]
  exact ⟨rfl, rfl, rfl, rfl⟩

/-- **The text in the property element is a node more.** -/
theorem splices_inElement : (t.bared e p.name).Splices u (e + 2) (e + 1) := by
  have retouches := (t.fronted e p.name).retouches_setAttributes e (t.node e).attributes.dropLast
  have inside := (laid_bared laid gives).proper.inside_of_reaches (outside_bared laid gives)
  obtain ⟨-, -, holds, leaf⟩ := nodes_inElement laid gives same
  refine splices_insertFirst same inside (.text holds leaf) rfl rfl fun object _ => ?_
  rw [bared, retouches.node (e + 1), node_fronted_new laid gives] at object
  cases object

theorem apart_inElement : (t.bared e p.name).Apart env u (e + 2) (e + 1) where
  outside _ _ template _ listed :=
    (laid_bared laid gives).proper.not_reaches_of_loaded (outside_bared laid gives) template listed
  leaf _ _ := (nodes_inElement laid gives same).2.2.2

end Written

end Fronted

end NodeTree

end MarkupLoader
