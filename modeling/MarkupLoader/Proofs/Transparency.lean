import MarkupLoader.Proofs.CutTexts

/-!
# Comments and instructions in content

A comment or an instruction that stands inside a text is passed over when a document is read, and so
**all loads should have the same outcome with it and without it**. They have, if there are only blanks
on one side of it: then the documents differ in positions only (`akin_of_unplaced`).

Otherwise there are two texts for the one (`NodeTree.CutText`), and **a load takes each of them by
itself**, so that an object is left with the last one, or gets two items. It makes no difference where
no text is taken (`Request.TakesNone`), nor in a scalar, whose texts are joined again, unless the blanks
at the place are missed.

Main results: `akin_of_unplaced`, `akin_of_cut`, `asides_transparent`.
-/

namespace MarkupLoader

open Markup (Blank CommentBody)
open NodeTree (moved)
open Text (isBlank)

/-! ## Documents that differ in positions only -/

namespace NodeTree

variable {t u : NodeTree}

/-- Documents that differ in positions only: the second one has a node more that is nowhere. -/
theorem splices_of_unplaced (same : u.unplaced = t.unplaced) (proper : t.Proper)
    (proper' : u.Proper) : t.Splices u t.size root ∧ ∀ i, t.size ∉ (u.node i).children := by
  have size : u.size = t.size := by
    rw [← u.size_unplaced, same, size_unplaced]
  have body := body_of_unplaced same
  have children := children_of_unplaced same
  have kind (i : NodeId) : (u.node i).kind = (t.node i).kind := by
    have kinds := congrArg NodeBody.kind (body i)
    exact kinds
  have stays {i : Nat} (inside : i < t.size) : moved t.size i = i := if_pos inside
  have absent (i : NodeId) : t.size ∉ (u.node i).children := fun listed =>
    Nat.lt_irrefl _ (size ▸ proper'.inside i t.size listed)
  have list (i : NodeId) : (t.node i).children.map (moved t.size) = (t.node i).children :=
    (List.map_congr_left fun c mem => stays (proper.inside i c mem)).trans (List.map_id _)
  have node (i : Nat) : (u.node (moved t.size i)).toNodeBody.unplaced =
        (t.node i).toNodeBody.unplaced ∧
      (u.node (moved t.size i)).children = (t.node i).children.map (moved t.size) := by
    rw [list]
    by_cases inside : i < t.size
    · rw [stays inside]
      exact ⟨body i, children i⟩
    · rw [moved, if_neg inside, node_of_size_le (by omega), node_of_size_le (by omega)]
      exact ⟨rfl, rfl⟩
  have bare (n : NodeBody) : n.bare = { n.unplaced with kind := n.unplaced.kind.bare } := rfl
  refine ⟨{
    later := proper.nonempty
    places := fun i => ?_
    ignorable := show u.unplaced.ignorable = _ by rw [same]; rfl
    body := fun i => by rw [bare, bare, (node i).1]
    kind := fun i => ?_
    children := fun i _ => (node i).2
    below := by rw [flatMap_entering (absent _), (node root).2]
    spliced := fun listed => absurd listed (absent _)
    attributes := by rw [node_of_size_le (Nat.le_of_eq size)]; rfl
    namespaces := by rw [node_of_size_le (Nat.le_of_eq size)]; rfl
    joined := fun _ _ => ?_ }, absent⟩
  · rw [size]
    unfold moved
    split <;> omega
  · have kinds := congrArg NodeBody.kind (node i).1
    exact .inl kinds
  · rw [moved_root proper.nonempty]
    unfold textContent
    rw [children]
    refine congrArg String.join (List.filterMap_congr fun c _ => ?_)
    rw [kind]

end NodeTree

/-- **A document one of whose texts is cut in two** in another one: the text at `c`, in the node `p`. The
blanks between the parts are lost. -/
structure NodeTree.CutText (t u : NodeTree) (c p : Nat) (one gap two : String) : Prop where
  halved : u.unplaced = (t.halved c one two).unplaced
  inside : c < t.size
  text : (t.node c).toNodeBody.unplaced = .ofText (one ++ gap ++ two) .nowhere
  leaf : (t.node c).children = []
  listed : c ∈ (t.node p).children
  blank : Blank gap.toList

/-- What a name stands for at an element of a document. -/
def NodeTree.target (t : NodeTree) (env : Environment) (q : NodeId) :
    TypeDescriptor → QName → Except AssignmentFault Target :=
  (Site.mk .empty t.linkParents (.start none false []) env.registry q).target

namespace Request

variable {env : Environment} {tolerant : Bool} {h : Heap} {request request' : Request}
  {t u : NodeTree} {a b : LoadState}

/-- **Documents that differ in positions only** are loaded alike. -/
theorem akin_of_unplaced (versions : Versions t u request request') (fits : request.Fits h)
    (same : u.unplaced = t.unplaced) (blind : env.extensions.Blind) :
    Outcome.Akin (request.outcome env tolerant h) (request'.outcome env tolerant h) := by
  obtain ⟨laid, laid', -⟩ := versions.documents
  obtain ⟨splices, absent⟩ := NodeTree.splices_of_unplaced same laid.proper laid'.proper
  have apart : t.Apart env u t.size NodeTree.root :=
    ⟨fun listed => absurd listed (absent _), fun listed => absurd listed (absent _)⟩
  refine akin_of_splices versions splices apart blind fun a b _ populated' s s' both => ?_
  have left' := versions.symm.left (versions.fits fits) populated'
  have absent' (i : NodeId) : t.size ∉ (s'.tree.node i).children := fun listed => by
    rw [both.settled'.tree] at listed
    exact absent i (left'.listed i _ listed)
  exact ⟨⟨fun _ _ _ listed => absurd listed (absent' _), fun listed => absurd listed (absent' _)⟩,
    fun _ listed => absurd listed (absent' _)⟩

/-! ## What texts go to -/

/-- The type of the object of a node: that of the object to load into, for the outermost element, or
the one that the node names. -/
def typeAt? (request : Request) (env : Environment) (h : Heap) (t : NodeTree) (i : NodeId) :
    Option TypeDescriptor :=
  match request.target? with
  | some target =>
    if i = NodeTree.root then some (h.descriptor target)
    else env.registry.get? (t.node i).typeName
  | none => env.registry.get? (t.node i).typeName

/-- The objects of nodes are of the types that are known before the load. -/
theorem Versions.typeAt? (versions : Versions t u request request') (fits : request.Fits h)
    (populated : request.Populated env tolerant h a) {i : NodeId} {n : ObjectId}
    (has : a.context.object? i = some n) :
    n < a.heap.size ∧ request.typeAt? env h t i = some (a.heap.descriptor n) := by
  obtain ⟨inside, typed⟩ := versions.typed fits populated has
  refine ⟨inside, ?_⟩
  unfold Request.typeAt?
  cases target : request.target? with
  | none => exact typed.resolve_right fun ⟨_, given, _⟩ => by cases target.symm.trans given
  | some m =>
    dsimp only
    split
    case isFalse other => exact typed.resolve_right fun ⟨is, _, _⟩ => other is
    case isTrue top =>
      -- The outermost element stands for the object to load into, which keeps its type.
      obtain ⟨start, first, before, created, begins, opens, rooted, populates⟩ :=
        populated.rooted fits
      have object := (populates.of_value opens.proper (Option.bind_eq_some_iff.1 has).choose_spec.1).1
      obtain ⟨about, known⟩ := populates.about opens.proper opens.fresh rooted.about (top ▸ object)
      have given := known m (rooted.given m target)
      rw [← about, ← top, has] at given
      cases given
      have before_ := populates.prepares.rootInstance.trans (rooted.given n target)
      have older : n < h.size := by
        cases versions with
        | create => cases target
        | loadInto =>
          cases target
          exact fits
      have same : a.heap.object n = h.object n := by
        rw [populates.heap, populates.creating.old n (populates.known n before_),
          populates.prepares.heap, rooted.old n older]
      exact congrArg (fun o : Object => some o.descriptor) same.symm

/-- **No text is taken** in `p`: the object of `p` does not take the text `whole` in it, nor its
parts, as content, and if `p` is a property element, what it stands for does not take the text. What
is pruned makes no objects. -/
structure TakesNone (request : Request) (env : Environment) (h : Heap) (t : NodeTree) (p : NodeId)
    (whole : String) (parts : List String) : Prop where
  content : (t.node p).isObject = true → t.Keeps t.prunedNodes p → ∀ d target,
    request.typeAt? env h t p = some d → d.kind.Contains → d.contentTarget = .ok target →
    ∀ text ∈ whole :: parts, ¬ target.type.Takes text
  element : ∀ q name d target, p ∈ (t.node q).children → t.Keeps t.prunedNodes q →
    (t.node p).kind = .property name → name.isDirective "Arguments" = false →
    request.typeAt? env h t q = some d → d.kind.Contains → t.target env q d name = .ok target →
    ¬ target.type.Takes whole

theorem spurns_of_versions (versions : Versions t u request request') (fits : request.Fits h)
    (populated : request.Populated env tolerant h a) {p : NodeId} {whole : String}
    {parts : List String} (takes : request.TakesNone env h t p whole parts) :
    Load.Spurns env p whole parts a := by
  have left := versions.left fits populated
  have proper := versions.documents.1.proper
  have kept {i : NodeId} {object : ObjectId} (has : a.context.object? i = some object) :
      t.Keeps t.prunedNodes i := by
    obtain ⟨value, held, -⟩ := Option.bind_eq_some_iff.1 has
    exact left.kept i value held
  refine ⟨fun i object has => (versions.typeAt? fits populated has).1, ?_, ?_⟩
  · intro object target has contains goes
    obtain ⟨value, held, -⟩ := Option.bind_eq_some_iff.1 has
    obtain ⟨first, before, created, opens, populates⟩ := populated.populates fits
    have is := (populates.of_value opens.proper held).1
    rw [NodeBody.isObject, left.kind] at is
    exact takes.content is (kept has) _ target (versions.typeAt? fits populated has).2 contains goes
  · intro q object name target listed is plain has contains goes
    have same : (a.site env q).target = t.target env q := by
      refine Site.target_congr rfl (left.lookUp q) ((left.typeName q).trans ?_)
      exact (congrArg NodeBody.typeName (NodeTree.body_linkParents proper q)).symm
    rw [same] at goes
    exact takes.element q name _ target (left.listed q p listed) (kept has)
      ((left.kind p).symm.trans is) plain (versions.typeAt? fits populated has).2 contains goes

section Cut

variable {c p : Nat} {one gap two : String} (versions : Versions t u request request')
  (fits : request.Fits h) (cut : t.CutText u c p one gap two)

include versions fits cut

theorem cuts_of_versions (populated : request.Populated env tolerant h a)
    (populated' : request'.Populated env tolerant h b) :
    Load.Cuts c p (one ++ gap ++ two) one two a b := by
  have left := versions.left fits populated
  have left' := versions.symm.left (versions.fits fits) populated'
  obtain ⟨first, second, others⟩ := NodeTree.kind_of_halved cut.halved cut.inside
  have text : (t.node c).kind = .text (one ++ gap ++ two) := congrArg NodeBody.kind cut.text
  exact {
    listed := left.text p c cut.listed _ text
    text := (left.kind c).trans text
    one := (left'.kind c).trans first
    two := (left'.kind (c + 1)).trans second
    kinds := fun i other => by rw [left'.kind, others i other, left.kind] }

/-- **Where no text is taken**, it makes no difference that one is cut in two. -/
theorem akin_of_cut (blind : env.extensions.Blind)
    (outside : t.Reaches (t.templates env) NodeTree.root p)
    (takes : request.TakesNone env h t p (one ++ gap ++ two) [one, two])
    (close : (t.node p).isObject = true → (t.node p).toNodeBody.IsScalar → gap = "") :
    Outcome.Akin (request.outcome env tolerant h) (request'.outcome env tolerant h) := by
  have proper := versions.documents.1.proper
  have splices : t.Splices u (c + 1) p :=
    NodeTree.splices_of_halved cut.halved cut.inside proper cut.text cut.leaf cut.listed
      fun object scalar => by rw [close object scalar, String.append_empty]
  have apart : t.Apart env u (c + 1) p :=
    ⟨fun _ q template child listed => proper.not_reaches_of_loaded outside template listed,
      fun _ _ => (NodeTree.children_of_halved cut.halved cut.inside).2.1⟩
  refine akin_of_splices versions splices apart blind fun a b populated populated' s s' both => ?_
  have cuts := cuts_of_versions versions fits cut populated populated'
  have spurns := spurns_of_versions versions fits populated takes
  exact ⟨Load.filled_of_text both cuts.two, Load.applied_of_cut cuts both spurns⟩

end Cut

/-! ## Asides -/

/--
**Comments and instructions inside texts are transparent**, apart from cutting a text in two. Let
there be something to be passed over at a place inside a text of a document that is read. Then the
document is read with it as well.

If there are only blanks on one side of the place, all loads of both documents have the same outcome:
they fail with errors of one kind, or leave the same objects under the same names. Otherwise there are
two texts for the one, what stands on the left and what stands on the right, without the blanks at the
place. Loads have the same outcome then, if the text is not in the content of a template, if neither
the object that it is in nor the property element that it is in takes it or one of its parts, and if
there are no blanks at the place in a scalar.
-/
theorem asides_transparent {markup : String} {before first second tail w : List Char}
    (place : Place markup before first second tail) (aside : Aside w)
    (read : NodeTree.read markup = .ok t) (blind : env.extensions.Blind) :
    ∃ u, NodeTree.read (String.ofList (before ++ (first ++ (w ++ (second ++ tail))))) = .ok u ∧
      (Blank first ∨ Blank second → ∀ request request' tolerant h,
        Versions t u request request' → request.Fits h →
        Outcome.Akin (request.outcome env tolerant h) (request'.outcome env tolerant h)) ∧
      (¬ Blank first → ¬ Blank second → ∃ c p one gap two,
        t.CutText u c p one gap two ∧
        ((∀ c ∈ first.getLast?, isBlank c = false) → (∀ c ∈ second.head?, isBlank c = false) →
          gap = "") ∧
        ∀ request request' tolerant h, Versions t u request request' → request.Fits h →
          t.Reaches (t.templates env) NodeTree.root p →
          request.TakesNone env h t p (one ++ gap ++ two) [one, two] →
          ((t.node p).isObject = true → (t.node p).toNodeBody.IsScalar → gap = "") →
          Outcome.Akin (request.outcome env tolerant h) (request'.outcome env tolerant h)) := by
  have laid := NodeTree.laid_of_read read
  obtain ⟨body, below, body', below', ignorable, rfl, read', same, cut⟩ := read_of_place place aside read
  refine ⟨_, read', fun blank request request' tolerant h versions fits => ?_, fun kept kept' => ?_⟩
  all_goals
    obtain ⟨whole, before, after, retexted⟩ := cut
    obtain ⟨one, two, before', after', some, both⟩ := textsOf_append place.outside whole
    cases before.symm.trans before'
    cases after.symm.trans after'
  · -- The text that is not blank is the whole text.
    rw [some blank] at retexted
    refine akin_of_unplaced versions fits ?_ blind
    rw [NodeTree.unplaced_ofForest, NodeTree.unplaced_ofForest, same, retexted.eq]
  · obtain ⟨one, gap, two, rfl, rfl, rfl, blankGap, seam⟩ := both kept kept'
    obtain ⟨c, later, inside, halved, text, leaf⟩ := NodeTree.halved_of_retexted same retexted
    obtain ⟨p, listed⟩ : ∃ p, c ∈ ((NodeTree.ofForest body below ignorable).node p).children := by
      cases laid.reached c inside with
      | top => exact absurd later (Nat.lt_irrefl 0)
      | @child p _ _ _ listed => exact ⟨p, listed⟩
    have cut : (NodeTree.ofForest body below ignorable).CutText _ c p one gap two :=
      ⟨halved, inside, text, leaf, listed, blankGap⟩
    exact ⟨c, p, one, gap, two, cut, seam, fun _ _ _ _ versions fits outside takes close =>
      akin_of_cut versions fits cut blind outside takes close⟩

/-- A comment inside a number, which is the same number. -/
theorem asides_transparent_number :
    let env : Environment := ⟨.controls, .builtIn⟩
    let before := ("<StackLayout xmlns=\"http://xamarin.com/schemas/2014/forms\" " ++
      "xmlns:x=\"http://schemas.microsoft.com/winfx/2009/xaml\"><x:Int32>").toList
    let first := "1".toList
    let comment := "<!--x-->".toList
    let second := "2".toList
    let tail := "</x:Int32></StackLayout>".toList
    let markup := String.ofList (before ++ (first ++ (second ++ tail)))
    let markup' := String.ofList (before ++ (first ++ (comment ++ (second ++ tail))))
    Place markup before first second tail ∧ Aside comment ∧ env.extensions.Blind ∧
      ∃ t u, NodeTree.read markup = .ok t ∧ NodeTree.read markup' = .ok u ∧
        Outcome.Akin ((create markup).outcome env false .empty)
          ((create markup').outcome env false .empty) ∧
        ((create markup).outcome env false .empty).result.toOption.isSome = true := by
  intro env before first comment second tail markup markup'
  let forms (localName : String) : QName := ⟨formsNamespace, localName⟩
  let language := "http://schemas.microsoft.com/winfx/2009/xaml"
  let t : NodeTree := ⟨#[
    ⟨⟨.root, forms "StackLayout", [], [], [("", formsNamespace), ("x", language)], ⟨1, 1⟩⟩, [1], none⟩,
    ⟨⟨.element, ⟨language, "Int32"⟩, [], [], [], ⟨1, 115⟩⟩, [2], none⟩,
    ⟨.ofText "12" ⟨1, 124⟩, [], none⟩], []⟩
  have read : NodeTree.read markup = .ok t := NodeTree.read_of_toOption (by decide +kernel)
  have place : Place markup before first second tail := .of_past 1 (by decide) (by decide +kernel)
  have aside : Aside comment :=
    .comment (show CommentBody ['x'] by decide) (show CommentBody.Clear ['x'] by decide)
  have blind : env.extensions.Blind := Extensions.blind_builtIn
  have succeeds : ((create markup).outcome env false .empty).result.toOption.isSome = true := by
    decide +kernel
  have known : env.registry.get? ⟨language, "Int32"⟩ = none := rfl
  obtain ⟨u, read', -, cutting⟩ := asides_transparent place aside read blind
  obtain ⟨c, p, one, gap, two, cut, seam, alike⟩ := cutting
    (fun blank => absurd (blank '1' List.mem_cons_self) (by decide))
    (fun blank => absurd (blank '2' List.mem_cons_self) (by decide))
  have close : gap = "" := by
    refine seam (fun c last => ?_) fun c head => ?_
    · cases last
      rfl
    · cases head
      rfl
  have here : p = 1 := by
    have listed := cut.listed
    match p, listed with
    | 0, listed =>
      obtain rfl := List.mem_singleton.1 listed
      have kind := congrArg NodeBody.kind cut.text
      cases kind
    | 1, _ => rfl
    | 2, listed => cases listed
    | n + 3, listed => cases listed
  subst here
  refine ⟨place, aside, blind, t, u, read, read', ?_, succeeds⟩
  refine alike _ _ false .empty (.create read read') trivial ?_ ?_ fun _ _ => close
  · exact .child .top rfl (List.mem_singleton_self 1)
  · refine ⟨fun _ _ d _ typed => ?_, fun q name _ _ _ _ is => ?_⟩
    · cases known.symm.trans typed
    · cases is

/-- **A comment inside the text of a label**: the label is left with what stands behind the comment. -/
theorem aside_cuts_label :
    let env : Environment := ⟨.controls, .builtIn⟩
    let before := "<Label xmlns=\"http://xamarin.com/schemas/2014/forms\">".toList
    let first := "a".toList
    let comment := "<!--x-->".toList
    let second := "b".toList
    let tail := "</Label>".toList
    let markup := String.ofList (before ++ (first ++ (second ++ tail)))
    let markup' := String.ofList (before ++ (first ++ (comment ++ (second ++ tail))))
    let outcome := (create markup).outcome env false .empty
    let outcome' := (create markup').outcome env false .empty
    Place markup before first second tail ∧ Aside comment ∧
      (NodeTree.read markup).toOption.isSome = true ∧
      outcome.result.toOption.isSome = true ∧ outcome'.result.toOption.isSome = true ∧
      (outcome.heap.get? 0 "Text").bind Value.string? = some "ab" ∧
      (outcome'.heap.get? 0 "Text").bind Value.string? = some "b" ∧
      ¬ Outcome.Akin outcome outcome' := by
  intro env before first comment second tail markup markup' outcome outcome'
  have place : Place markup before first second tail := .of_past 0 (by decide) (by decide +kernel)
  have aside : Aside comment :=
    .comment (show CommentBody ['x'] by decide) (show CommentBody.Clear ['x'] by decide)
  have succeeds : outcome.result.toOption.isSome = true := by decide +kernel
  have text : (outcome.heap.get? 0 "Text").bind Value.string? = some "ab" := by decide +kernel
  have text' : (outcome'.heap.get? 0 "Text").bind Value.string? = some "b" := by decide +kernel
  refine ⟨place, aside, by decide +kernel, succeeds, by decide +kernel, text, text', fun akin => ?_⟩
  have same := (akin.heap_of_ok succeeds).get? 0 "Text"
  rw [← same, text'] at text
  exact absurd (Option.some.inj text) (by decide)

end Request

end MarkupLoader
