import MarkupLoader.Proofs.DictionaryElements
import MarkupLoader.Proofs.Inserting

/-!
# Property elements around content

What stands in an element may be written as it is, or inside a property element that names the
property that it goes to. **The wrapped document** (`NodeTree.wrapped`) is the one of the second
way: it has a node more, right after the element, which holds all that has been in it.

Main results: `splices_of_wrapped`, `splitOwner?_wrapperName`.
-/

namespace MarkupLoader

/-- The name of the property element that stands for a property of an element. -/
def NodeBody.wrapperName (n : NodeBody) (property : String) : QName :=
  ⟨n.typeName.namespaceUri, n.typeName.localName ++ "." ++ property⟩

/-- The name is that of the property, if this has no dot in it. -/
theorem NodeBody.splitOwner?_wrapperName (n : NodeBody) {property : String}
    (plain : '.' ∉ property.toList) :
    splitOwner? (n.wrapperName property).localName = some (n.typeName.localName, property) := by
  have free : '.' ∉ property.toList.reverse := fun mem => plain (List.mem_reverse.1 mem)
  have reversed : (n.typeName.localName ++ "." ++ property).toList.reverse =
      property.toList.reverse ++ '.' :: n.typeName.localName.toList.reverse := by
    simp
  unfold splitOwner? wrapperName
  dsimp only
  rw [reversed, Text.cut?_append free]
  simp

namespace NodeTree

/-! ## The wrapped document -/

/-- The node at a place in the document where all that is in `e` has been wrapped. -/
def wrappedNode (t : NodeTree) (e : Nat) (property : String) (j : Nat) : Node :=
  let name := (t.node e).wrapperName property
  let inside := (t.node e).children.map (moved (e + 1))
  if j = e then { t.node e with children := [e + 1] }
  else if j = e + 1 then ⟨⟨.property name, name, [], [], [], .nowhere⟩, inside, none⟩
  else
    let n := t.node (if j < e then j else j - 1)
    { n with children := n.children.map (moved (e + 1)) }

/-- **The document with a property element** around all that is in `e`. -/
def wrapped (t : NodeTree) (e : Nat) (property : String) : NodeTree :=
  ⟨Array.ofFn fun j : Fin (t.size + 1) => t.wrappedNode e property j, t.ignorable⟩

section Wrapped

variable {t u : NodeTree} {e i : Nat} {property : String}

-- The property element comes in behind the element: unfolded, the wrapped document is a grown one.

theorem node_wrapped_itself (inside : e < t.size) :
    (t.wrapped e property).node e = { t.node e with children := [e + 1] } :=
  node_grown_itself _ _ inside

theorem node_wrapped_new (property : String) (inside : e < t.size) :
    (t.wrapped e property).node (e + 1) =
      ⟨⟨.property ((t.node e).wrapperName property), (t.node e).wrapperName property, [], [], [],
        .nowhere⟩, (t.node e).children.map (moved (e + 1)), none⟩ :=
  node_grown_new _ _ inside

/-- What a node says that is no new one. -/
theorem body_wrapped (inside : e < t.size) (i : Nat) :
    ((t.wrapped e property).node (moved (e + 1) i)).toNodeBody = (t.node i).toNodeBody :=
  body_grown inside i

/-- **The wrapped document has a node more.** -/
theorem splices_of_wrapped (same : u.unplaced = (t.wrapped e property).unplaced)
    (inside : e < t.size) (plain : '.' ∉ property.toList) (object : (t.node e).isObject = true)
    (scalar : ¬ (t.node e).toNodeBody.IsScalar)
    (content : ∀ c ∈ (t.node e).children, ∀ name, (t.node c).kind ≠ .property name) :
    t.Splices u (e + 1) e := by
  have stays : moved (e + 1) e = e := if_pos (Nat.lt_succ_self e)
  have new := node_wrapped_new property inside
  have written := body_of_unplaced same (e + 1)
  rw [new] at written
  refine splices_of_grown same inside ?_ (.property (congrArg NodeBody.kind written) ?_ ?_ object
    scalar ?_ content) rfl rfl fun _ is => absurd is scalar
  · rw [List.flatMap_singleton, if_pos rfl]
  · exact Site.isDirective_of_splitOwner? ((t.node e).splitOwner?_wrapperName plain)
  · exact congrArg (·.typeName.namespaceUri) written
  · rw [stays, children_of_unplaced same, node_wrapped_itself inside]

end Wrapped

end NodeTree

end MarkupLoader
