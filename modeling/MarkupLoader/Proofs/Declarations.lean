import MarkupLoader.Proofs.Copies
import MarkupLoader.Proofs.Rooting
import MarkupLoader.Proofs.Shape
import Mathlib.Logic.Relation

/-!
# Declarations in force

A prefix stands for what the nearest start tag says that declares it. **What is nearest** can be
told in three ways, and all of them agree:

* **in the text**, by going over it once from left to right and keeping the start tags that are
  open (`Scanner`). A tag without content is around nothing, and an end takes away the innermost
  tag;
* **in the reader**, by the declarations that it hands down to the content of an element. They are
  those of the tags around (`runs_of_readContent`);
* **in the document**, by the nodes above a node, once parents are linked
  (`lookUp_of_outlined`).

So what a reader has stored as the namespace of a name is what is looked up for the prefix that the
name was written with (`StartTag.MeantAs`).

Main results: `runs_of_readContent`, `lookUp_of_outlined`, `meantAs_of_body`,
`NodeTree.lookUp_of_read`.
-/

namespace MarkupLoader

/-! ## The tags around a place -/

/-- **A scan of a text**: where it is, the start tags that are open there, and for each node so far
the start tags around it, its own included. The innermost tag comes first. -/
structure Scanner where
  cursor : Cursor
  enclosing : List StartTag
  outline : List (List StartTag)

namespace Scanner

/-- Goes over a start tag, which is the first one around its own node. -/
def enter (s : Scanner) (tag : StartTag) (after : Cursor) : Scanner :=
  ⟨after, if tag.closed then s.enclosing else tag :: s.enclosing,
    s.outline ++ [tag :: s.enclosing]⟩

/-- Goes over a text, which is a node as well. -/
def note (s : Scanner) (after : Cursor) : Scanner :=
  ⟨after, s.enclosing, s.outline ++ [s.enclosing]⟩

/-- Goes over the next piece of a text, unless the outermost element has come to its end. -/
def step? (s : Scanner) : Option Scanner :=
  match s.enclosing with
  | [] => none
  | opened :: around =>
    if s.cursor.rest.isEmpty then none
    else match pieceAt s.cursor with
      | .ending => (readEndTag opened.written s.cursor).toOption.map (⟨·, around, s.outline⟩)
      | .comment => (s.cursor.through "-->").toOption.map (⟨·.2, s.enclosing, s.outline⟩)
      | .instruction => (s.cursor.through "?>").toOption.map (⟨·.2, s.enclosing, s.outline⟩)
      | .characterData => (readCharacterData s.cursor).toOption.map (s.note ·.2)
      | .text => (readText s.cursor).toOption.map fun (kept, after) =>
        if kept.isSome then s.note after else ⟨after, s.enclosing, s.outline⟩
      | .element => (StartTag.read s.cursor).toOption.map fun (tag, after) => s.enter tag after

/-- Goes over any number of pieces. -/
abbrev Runs : Scanner → Scanner → Prop := Relation.ReflTransGen fun s next => s.step? = some next

/-- **The tags around the nodes of a text**, in the order of the nodes: the scan begins behind the
outermost start tag and goes on to the end of the outermost element. -/
inductive Outlines (text : String) (outline : List (List StartTag)) : Prop
  | intro {start after : Cursor} {tag : StartTag} {last : Scanner}
    (prologue : readPrologue (Cursor.ofText text).rest.length (Cursor.ofText text) = .ok start)
    (opened : StartTag.read start = .ok (tag, after))
    (runs : Runs (Scanner.enter ⟨start, [], []⟩ tag after) last) (ended : last.enclosing = [])
    (is : last.outline = outline)

theorem step?_of_ended {s : Scanner} (ended : s.enclosing = []) : s.step? = none := by
  rw [step?, ended]

section Steps

variable {c after : Cursor} {tag : StartTag} (around : List StartTag)
  (outline : List (List StartTag)) (more : c.rest.isEmpty = false)

include more

theorem step?_ending (piece : pieceAt c = .ending) (ended : readEndTag tag.written c = .ok after) :
    step? ⟨c, tag :: around, outline⟩ = some ⟨after, around, outline⟩ := by
  simp [step?, more, piece, ended, Except.toOption]

theorem step?_passed {mark : String} {skipped : List Char}
    (piece : pieceAt c = .comment ∧ mark = "-->" ∨ pieceAt c = .instruction ∧ mark = "?>")
    (through : c.through mark = .ok (skipped, after)) :
    step? ⟨c, tag :: around, outline⟩ = some ⟨after, tag :: around, outline⟩ := by
  obtain ⟨piece, rfl⟩ | ⟨piece, rfl⟩ := piece
  all_goals simp [step?, more, piece, through, Except.toOption]

theorem step?_characterData {n : NodeBody} (piece : pieceAt c = .characterData)
    (taken : readCharacterData c = .ok (n, after)) :
    step? ⟨c, tag :: around, outline⟩ = some (note ⟨c, tag :: around, outline⟩ after) := by
  simp [step?, more, piece, taken, Except.toOption]

theorem step?_blank (piece : pieceAt c = .text) (taken : readText c = .ok (none, after)) :
    step? ⟨c, tag :: around, outline⟩ = some ⟨after, tag :: around, outline⟩ := by
  simp [step?, more, piece, taken, Except.toOption]

theorem step?_text {n : NodeBody} (piece : pieceAt c = .text)
    (taken : readText c = .ok (some n, after)) :
    step? ⟨c, tag :: around, outline⟩ = some (note ⟨c, tag :: around, outline⟩ after) := by
  simp [step?, more, piece, taken, Except.toOption]

theorem step?_element {inner : StartTag} (piece : pieceAt c = .element)
    (read : StartTag.read c = .ok (inner, after)) :
    step? ⟨c, tag :: around, outline⟩ = some (enter ⟨c, tag :: around, outline⟩ inner after) := by
  simp [step?, more, piece, read, Except.toOption]

end Steps

/-- A text has one outline. -/
theorem Outlines.unique {text : String} {first second : List (List StartTag)}
    (outlines : Outlines text first) (outlines' : Outlines text second) : first = second := by
  obtain ⟨prologue, opened, runs, ended, rfl⟩ := outlines
  obtain ⟨prologue', opened', runs', ended', rfl⟩ := outlines'
  cases prologue.symm.trans prologue'
  cases opened.symm.trans opened'
  have stays : ∀ {s next : Scanner}, s.enclosing = [] → Runs s next → s = next := by
    intro s next ended runs
    refine (Relation.ReflTransGen.cases_head runs).resolve_right fun ⟨_, goesOn, _⟩ => ?_
    rw [step?_of_ended ended] at goesOn
    cases goesOn
  have one : Relator.RightUnique fun s next : Scanner => s.step? = some next :=
    fun _ _ _ here there => Option.some.inj (here.symm.trans there)
  -- Neither scan goes on from where it has ended.
  rcases Relation.ReflTransGen.total_of_right_unique one runs runs' with more | more
  · rw [stays ended more]
  · rw [stays ended' more]

end Scanner

/-! ## What the reader hands down -/

/-- **The content of an element and the tags around its nodes**, as a reader comes by them that
looks up the names of a tag in the declarations of the tags around. -/
inductive Outlined : List StartTag → Forest → List (List StartTag) → Prop
  | nil (around : List StartTag) : Outlined around .nil []
  | text {around : List StartTag} (content : String) (position : Position) {siblings : Forest}
    {later : List (List StartTag)} (rest : Outlined around siblings later) :
    Outlined around (.cons (.ofText content position) .nil siblings) (around :: later)
  | element {around : List StartTag} {tag : StartTag} {body : NodeBody} {ignorable : List String}
    {children siblings : Forest} {inside later : List (List StartTag)}
    (meant : tag.body ((tag :: around).map StartTag.declarations) false = .ok (body, ignorable))
    (below : Outlined (tag :: around) children inside)
    (rest : Outlined around siblings later) :
    Outlined around (.cons body children siblings) ((tag :: around) :: (inside ++ later))

section Reading

variable {tag : StartTag} {around : List StartTag} {fuel : Nat} {c after : Cursor} {f : Forest}

/-- **Reading the content of an element goes over the pieces of the text one by one**, and the
declarations that it hands down are those of the tags around. -/
theorem runs_of_readContent
    (read : readContent tag ((tag :: around).map StartTag.declarations) fuel c = .ok (f, after)) :
    ∃ outline, Outlined (tag :: around) f outline ∧ ∀ before,
      Scanner.Runs ⟨c, tag :: around, before⟩ ⟨after, around, before ++ outline⟩ := by
  induction fuel generalizing tag around c after f with
  | zero => cases read
  | succ fuel ih =>
    obtain ⟨more, reads⟩ := readContent_eq_ok_iff.1 read
    -- A text is noted with the tags around it.
    have noted {n : NodeBody} {rest : Cursor} {siblings : Forest}
        (text : ∃ content, n = .ofText content c.position)
        (step : ∀ before, Scanner.step? ⟨c, tag :: around, before⟩ =
          some (Scanner.note ⟨c, tag :: around, before⟩ rest))
        (later : readContent tag ((tag :: around).map StartTag.declarations) fuel rest =
          .ok (siblings, after)) :
        ∃ outline, Outlined (tag :: around) (.cons n .nil siblings) outline ∧ ∀ before,
          Scanner.Runs ⟨c, tag :: around, before⟩ ⟨after, around, before ++ outline⟩ := by
      obtain ⟨content, rfl⟩ := text
      obtain ⟨outline, outlined, runs⟩ := ih later
      refine ⟨_, .text content c.position outlined, fun before => .head (step before) ?_⟩
      rw [List.append_cons]
      exact runs _
    cases reads with
    | ending piece ended =>
      refine ⟨[], .nil _, fun before => .single ?_⟩
      rw [List.append_nil]
      exact Scanner.step?_ending around before more piece ended
    | passed piece through rest =>
      obtain ⟨outline, outlined, runs⟩ := ih rest
      exact ⟨outline, outlined, fun before =>
        .head (Scanner.step?_passed around before more piece through) (runs before)⟩
    | characterData piece taken rest =>
      exact noted (text_of_readCharacterData taken)
        (fun before => Scanner.step?_characterData around before more piece taken) rest
    | blank piece taken rest =>
      obtain ⟨outline, outlined, runs⟩ := ih rest
      exact ⟨outline, outlined, fun before =>
        .head (Scanner.step?_blank around before more piece taken) (runs before)⟩
    | text piece taken rest =>
      exact noted (text_of_readText taken)
        (fun before => Scanner.step?_text around before more piece taken) rest
    | @element inner start _ _ children siblings piece opened below rest =>
      obtain ⟨read, meant, scopes⟩ := readOpenTag_eq_ok_iff.1 opened
      have step before : Scanner.step? ⟨c, tag :: around, before⟩ =
          some (Scanner.enter ⟨c, tag :: around, before⟩ inner.tag start) :=
        Scanner.step?_element around before more piece read
      obtain ⟨outline, outlined, runs⟩ := ih rest
      -- The tag is entered first, and if it is closed, that is all there is of the element.
      cases closed : inner.tag.closed with
      | true =>
        rw [closed] at below
        cases below
        refine ⟨_, .element meant (.nil _) outlined, fun before => .head (step before) ?_⟩
        rw [List.nil_append, List.append_cons, Scanner.enter, closed]
        exact runs _
      | false =>
        rw [closed, scopes] at below
        obtain ⟨outline', outlined', runs'⟩ := ih below
        refine ⟨_, .element meant outlined' outlined, fun before => .head (step before) ?_⟩
        rw [List.append_cons, ← List.append_assoc, Scanner.enter, closed]
        exact .trans (runs' _) (runs _)

end Reading

/-! ## What is looked up in the document -/

/-- What the nearest of some tags says that declares a prefix. -/
def declared? (around : List StartTag) (key : String) : Option String :=
  around.findSome? (·.declarations.lookup key)

theorem declared?_cons (tag : StartTag) (around : List StartTag) (key : String) :
    declared? (tag :: around) key = (tag.declarations.lookup key).or (declared? around key) := by
  rw [declared?, List.findSome?_cons]
  cases tag.declarations.lookup key <;> rfl

/-- A node is that of a tag that has been read with the declarations around it, or a text. -/
inductive NodeBody.Stands (tags : List StartTag) (n : NodeBody) : Prop
  | text (content : String) (position : Position) (is : n = .ofText content position)
  | element {tag : StartTag} {around : List StartTag} {outermost : Bool} {ignorable : List String}
    (own : tags = tag :: around)
    (meant : tag.body (tags.map StartTag.declarations) outermost = .ok (n, ignorable))

theorem namespaces_of_body {tag : StartTag} {scopes : Scopes} {outermost : Bool} {body : NodeBody}
    {ignorable : List String} (meant : tag.body scopes outermost = .ok (body, ignorable)) :
    body.namespaces = tag.declarations := by
  obtain ⟨name, given, -, -, rfl, -⟩ := StartTag.body_eq_ok_iff.1 meant
  rfl

namespace Forest

theorem range_size_cons (base : NodeId) (body : NodeBody) (children siblings : Forest) :
    List.range' base (cons body children siblings).size =
      base :: (List.range' (base + 1) children.size ++
        List.range' (base + 1 + children.size) siblings.size) := by
  rw [List.range'_append_1, ← List.range'_succ]
  congr 1
  rw [size]
  omega

/-- A forest is laid out as its first node, what is below that, and its later siblings. -/
theorem laid_cons {t : NodeTree} {base : NodeId} {body : NodeBody} {children siblings : Forest}
    (laid : (List.range' base (cons body children siblings).size).map t.node =
      (cons body children siblings).nodes base) :
    t.node base = ⟨body, children.roots (base + 1), none⟩ ∧
      (List.range' (base + 1) children.size).map t.node = children.nodes (base + 1) ∧
      (List.range' (base + 1 + children.size) siblings.size).map t.node =
        siblings.nodes (base + 1 + children.size) := by
  rw [range_size_cons, List.map_cons, List.map_append, nodes] at laid
  obtain ⟨first, rest⟩ := List.cons_eq_cons.1 laid
  refine ⟨first, List.append_inj rest ?_⟩
  rw [List.length_map, List.length_range', length_nodes]

end Forest

namespace Outlined

variable {around : List StartTag} {f : Forest} {outline : List (List StartTag)}

/-- The tags around the nodes go with the nodes one by one. -/
theorem stands (outlined : Outlined around f outline) (base : NodeId) :
    List.Forall₂ (fun tags (n : Node) => n.toNodeBody.Stands tags) outline (f.nodes base) := by
  induction outlined generalizing base with
  | nil around => exact .nil
  | text content position _ later => exact .cons (.text content position rfl) (later _)
  | element meant _ _ below later =>
    exact .cons (.element rfl meant) (List.rel_append (below _) (later _))

/-- **Looking up from a node finds what the nearest tag around it declares**, if that is so for the
node that lists the outermost nodes of the forest. -/
theorem lookUp {t : NodeTree} (proper : t.Proper) (outlined : Outlined around f outline)
    {base p : NodeId} (laid : (List.range' base f.size).map t.node = f.nodes base)
    (reached : t.Reaches (fun _ => false) NodeTree.root p)
    (listed : ∀ r ∈ f.roots base, r ∈ (t.node p).children)
    (above : t.linkParents.lookUpNamespace p = declared? around) :
    List.Forall₂ (fun tags id => t.linkParents.lookUpNamespace id = declared? tags) outline
      (List.range' base f.size) := by
  have linked := NodeTree.linked_linkParents proper
  -- A node that is listed looks at its own declarations first.
  have child : ∀ {p c : NodeId}, t.Reaches (fun _ => false) NodeTree.root p →
      c ∈ (t.node p).children → ∀ key, t.linkParents.lookUpNamespace c key =
        ((t.node c).namespaces.lookup key).or (t.linkParents.lookUpNamespace p key) := by
    intro p c reached listed key
    have reached' : t.linkParents.Reaches (fun _ => false) NodeTree.root p :=
      reached.congr fun n _ => ⟨NodeTree.children_linkParents proper n, rfl⟩
    rw [linked.lookUpNamespace_child proper.linkParents reached'
      (by rwa [NodeTree.children_linkParents proper]), NodeTree.body_linkParents proper]
  induction outlined generalizing base p with
  | nil around => exact .nil
  | @text around content position siblings outline _ later =>
    obtain ⟨first, -, behind⟩ := Forest.laid_cons laid
    obtain ⟨here, others⟩ := List.forall_mem_cons.1 listed
    rw [Forest.range_size_cons]
    refine .cons (funext fun key => ?_) (later behind reached others above)
    -- A text declares nothing.
    rw [child reached here, first, above]
    rfl
  | @element around tag body ignorable children siblings inside outline meant _ _ below later =>
    obtain ⟨first, within, behind⟩ := Forest.laid_cons laid
    obtain ⟨here, others⟩ := List.forall_mem_cons.1 listed
    -- What is in force at the element is in force for what it lists.
    have own : t.linkParents.lookUpNamespace base = declared? (tag :: around) := by
      funext key
      rw [child reached here, first, above, declared?_cons, ← namespaces_of_body meant]
    rw [Forest.range_size_cons]
    refine .cons own (List.rel_append ?_ (later behind reached others above))
    refine below within (.child reached rfl here) (fun r mem => ?_) own
    rwa [first]

end Outlined

/-! ## What names mean -/

theorem Text.splitAt_ne_nil (separator : Char) (s : String) : Text.splitAt separator s ≠ [] := by
  unfold Text.splitAt
  rw [Ne, List.map_eq_nil_iff]
  cases s.toList with
  | nil => exact List.cons_ne_nil _ _
  | cons c rest =>
    unfold Text.pieces
    split <;> (try split) <;> exact List.cons_ne_nil _ _

section Meaning

variable (lookUp : String → Option String)

/-- The type that a name as written stands for: without a prefix it is in the default namespace,
which there always is. -/
def meantType? (written : String) : Option QName :=
  let (qualifier, localName) := splitQualified written
  ((lookUp (qualifier.getD "")).or (if qualifier.isNone then some "" else none)).map (⟨·, localName⟩)

/-- The name of an attribute: without a prefix it has no namespace. -/
def RawAttribute.name? (a : RawAttribute) : Option QName :=
  match splitQualified a.written with
  | (none, localName) => some ⟨"", localName⟩
  | (some key, localName) => (lookUp key).map (⟨·, localName⟩)

/-- The attribute of the node that an attribute as written gives, unless it is a declaration or
concerns compatibility. -/
def RawAttribute.own? (a : RawAttribute) : Option Attribute :=
  if a.declaredPrefix?.isSome then none
  else (a.name? lookUp).bind fun name =>
    if name.namespaceUri = compatibilityNamespace then none
    else some ⟨name, .raw a.value, a.position⟩

/-- Whether an attribute gives type arguments. -/
def Attribute.givesArguments (a : Attribute) : Bool := a.name.isDirective "TypeArguments"

/-- The types that the text of an attribute lists. -/
def Attribute.meantTypes (a : Attribute) : List (Option QName) :=
  (Text.splitAt ',' (a.value.text?.getD "")).map fun written => meantType? lookUp (Text.trimmed written)

/-- **A body says what a start tag means**, if prefixes stand for what is looked up: every name is
in the namespace of the prefix that it was written with, and no prefix is unknown. -/
structure StartTag.MeantAs (t : StartTag) (n : NodeBody) : Prop where
  typeName : meantType? lookUp t.written = some n.typeName
  property : ∀ name, n.kind = .property name → n.typeName = name
  namespaces : n.namespaces = t.declarations
  known : ∀ a ∈ t.attributes, a.declaredPrefix? = none → a.name? lookUp ≠ none
  attributes : n.attributes = t.attributes.filterMap (·.own? lookUp)
  /-- The last list of type arguments counts. -/
  typeArguments : n.typeArguments.map some =
    ((n.attributes.filter (·.givesArguments)).getLast?.map (·.meantTypes lookUp)).getD []

variable {lookUp} {scopes : Scopes} {outermost : Bool}

section LookedUp

variable (same : ∀ key, lookUp key = scopes.findSome? (·.lookup key))

include same

theorem lookUp_of_namespaceOf {qualifier : Option String} {uri : String}
    (is : namespaceOf scopes qualifier = some uri) :
    (lookUp (qualifier.getD "")).or (if qualifier.isNone then some "" else none) = some uri := by
  unfold namespaceOf at is
  rw [same]
  cases found : scopes.findSome? (·.lookup (qualifier.getD "")) with
  | some other =>
    rw [found] at is
    exact is
  | none =>
    rw [found] at is
    exact is

/-- What a name stands for is what is looked up. -/
theorem StandsFor.meantType? {written : String} {name : QName}
    (stands : StandsFor scopes written name) : meantType? lookUp written = some name := by
  obtain ⟨found, is⟩ := stands
  unfold MarkupLoader.meantType?
  generalize splitQualified written = parts at found is ⊢
  dsimp only
  rw [lookUp_of_namespaceOf same found, is]
  rfl

theorem meantTypes_of_read {pieces : List String} {names : List QName}
    (read : List.Forall₂ (fun written => StandsFor scopes (Text.trimmed written)) pieces names) :
    names.map some = pieces.map fun written => meantType? lookUp (Text.trimmed written) := by
  induction read with
  | nil => rfl
  | cons stands _ ih => rw [List.map_cons, List.map_cons, ih, stands.meantType? same]

/-- The default namespace does not concern attributes. -/
theorem RawAttribute.Named.name? {a : RawAttribute} {name : QName} (named : a.Named scopes name) :
    a.name? lookUp = some name := by
  unfold RawAttribute.name?
  cases named with
  | plain parts => rw [parts]
  | @prefixed key localName uri parts found =>
    have found := lookUp_of_namespaceOf same found
    rw [parts]
    simp only [Option.getD_some, Option.isNone_some, Bool.false_eq_true, if_false,
      Option.or_none] at found
    simp only [found, Option.map_some]

/-- What an attribute contributes is what it means. -/
theorem RawAttribute.Contributes.meant {a : RawAttribute} {given : Contribution}
    (contributes : a.Contributes scopes outermost given) :
    (a.declaredPrefix? = none → a.name? lookUp ≠ none) ∧ given.attribute? = a.own? lookUp ∧
      given.typeArguments?.map (·.map some) =
        (given.attribute?.filter (·.givesArguments)).map (·.meantTypes lookUp) := by
  unfold RawAttribute.own?
  cases contributes with
  | declaration declares =>
    rw [if_pos declares]
    refine ⟨fun none => ?_, rfl, rfl⟩
    rw [none] at declares
    cases declares
  | @named name _ other named adds =>
    rw [if_neg other, named.name? same, Option.bind_some]
    refine ⟨fun _ => Option.some_ne_none _, ?_⟩
    cases adds with
    | ignorable compatible | compatibility compatible =>
      rw [if_pos compatible]
      exact ⟨rfl, rfl⟩
    | @arguments names own lists read =>
      rw [if_neg own]
      refine ⟨rfl, ?_⟩
      have types := meantTypes_of_read same read
      have some_ : names ≠ [] := by
        rintro rfl
        exact Text.splitAt_ne_nil ',' a.value (List.map_eq_nil_iff.1 types.symm)
      have gives : (isLanguage name.namespaceUri && name.localName == "TypeArguments") = true := by
        simp [lists]
      simp only [Contribution.attribute?, Contribution.typeArguments?, List.isEmpty_iff, some_,
        if_false, Option.filter, Attribute.givesArguments, QName.isDirective, gives, if_true,
        Option.map_some]
      rw [types]
      rfl
    | plain own other =>
      rw [if_neg own]
      refine ⟨rfl, ?_⟩
      have gives : (isLanguage name.namespaceUri && name.localName == "TypeArguments") = false := by
        simpa using other
      simp [Contribution.attribute?, Contribution.typeArguments?, Option.filter,
        Attribute.givesArguments, QName.isDirective, gives]

/-- What all attributes of a tag contribute. -/
theorem contributions_meant {attributes : List RawAttribute} {given : List Contribution}
    (contribute : List.Forall₂ (RawAttribute.Contributes scopes outermost) attributes given) :
    (∀ a ∈ attributes, a.declaredPrefix? = none → a.name? lookUp ≠ none) ∧
      given.filterMap (·.attribute?) = attributes.filterMap (·.own? lookUp) ∧
      (given.filterMap (·.typeArguments?)).map (·.map some) =
        ((given.filterMap (·.attribute?)).filter (·.givesArguments)).map (·.meantTypes lookUp) := by
  induction contribute with
  | nil => exact ⟨nofun, rfl, rfl⟩
  | @cons a first rest others here _ ih =>
    obtain ⟨known, own, types⟩ := here.meant same
    obtain ⟨known', own', types'⟩ := ih
    refine ⟨List.forall_mem_cons.2 ⟨known, known'⟩, ?_, ?_⟩
    · rw [List.filterMap_cons, List.filterMap_cons, own, own']
    · cases first with
      | directions uris => exact types'
      | own b names =>
        have is : (Contribution.own b names).attribute? = some b := rfl
        rw [is, Option.filter_some] at types
        simp only [List.filterMap_cons, is, List.filter_cons]
        cases gives : b.givesArguments <;> rw [gives] at types
        · have none : (Contribution.own b names).typeArguments? = none := by simpa using types
          simpa only [none, Bool.false_eq_true, if_false] using types'
        · obtain ⟨listed, lists, same⟩ := Option.map_eq_some_iff.1 types
          simp only [lists, if_true, List.map_cons, same, types']

/-- **What a reader has stored for a start tag is what the tag means** by the declarations that it
was read with. -/
theorem meantAs_of_body {tag : StartTag} {n : NodeBody} {ignorable : List String}
    (meant : tag.body scopes outermost = .ok (n, ignorable)) : tag.MeantAs lookUp n := by
  obtain ⟨name, given, named, contribute, rfl, rfl⟩ := StartTag.body_eq_ok_iff.1 meant
  obtain ⟨known, own, types⟩ := contributions_meant same contribute
  refine ⟨named.meantType? same, fun other kind => ?_, rfl, known, own, ?_⟩
  · change StartTag.kindOf outermost name = .property other at kind
    unfold StartTag.kindOf at kind
    split at kind
    · cases kind
    · split at kind <;> cases kind
      rfl
  · rw [← List.getLast?_map]
    unfold StartTag.bodyOf
    dsimp only
    rw [← types, List.getLast?_map]
    cases (given.filterMap (·.typeArguments?)).getLast? <;> rfl

end LookedUp

end Meaning

/-! ## Documents -/

namespace NodeTree

variable {text : String} {t : NodeTree}

theorem map_node_ofForest (body : NodeBody) (below : Forest) (ignorable : List String) :
    (List.range' 1 below.size).map (ofForest body below ignorable).node = below.nodes 1 := by
  refine List.ext_getElem (by simp [Forest.length_nodes]) fun i inside inside' => ?_
  rw [List.getElem_map, List.getElem_range', node, ofForest]
  simp [inside', Nat.add_comm 1 i]

/-- What goes with the places of a range goes with each of them. -/
theorem of_forall₂_range' {α : Type} {R : α → NodeId → Prop} {list : List α} {base n i : Nat}
    (all : List.Forall₂ R list (List.range' base n)) {a : α} (is : list[i]? = some a) :
    R a (base + i) := by
  obtain ⟨inside, rfl⟩ := List.getElem?_eq_some_iff.1 is
  have inside' : i < (List.range' base n).length := all.length_eq ▸ inside
  have here := all.get inside inside'
  rwa [List.get_eq_getElem, List.get_eq_getElem, List.getElem_range', Nat.one_mul] at here

/-- Reading a document goes over its text once, and builds a forest with the tags around its nodes
below the outermost one. -/
theorem outlines_of_read (read : NodeTree.read text = .ok t) :
    ∃ (outer : StartTag) (body : NodeBody) (below : Forest) (ignorable : List String)
      (outline : List (List StartTag)),
      outer.body [outer.declarations] true = .ok (body, ignorable) ∧
        Outlined [outer] below outline ∧ t = ofForest body below ignorable ∧
          Scanner.Outlines text ([outer] :: outline) := by
  obtain ⟨start, outer, inside, below, after, prologue, opened, content, rfl⟩ :=
    read_eq_ok_iff.1 read
  obtain ⟨written, meant, scopes⟩ := readOpenTag_eq_ok_iff.1 opened
  refine ⟨outer.tag, outer.body, below, outer.ignorable, ?_⟩
  cases closed : outer.tag.closed with
  | true =>
    rw [closed] at content
    cases content
    exact ⟨[], meant, .nil _, rfl, .intro prologue written .refl (if_pos closed) rfl⟩
  | false =>
    rw [closed, scopes] at content
    have content : readContent outer.tag (([outer.tag] : List StartTag).map StartTag.declarations)
      inside.rest.length inside = .ok (below, after) := content
    obtain ⟨outline, outlined, runs⟩ := runs_of_readContent content
    have goes : Scanner.Runs (Scanner.enter ⟨start, [], []⟩ outer.tag inside)
        ⟨after, [], [outer.tag] :: outline⟩ := by
      rw [Scanner.enter, closed]
      exact runs [[outer.tag]]
    exact ⟨outline, meant, outlined, rfl, .intro prologue written goes rfl rfl⟩

/--
**What a prefix stands for is what the nearest start tag around declares.** A text that is a document
has one outline: for each node in order the start tags around it, its own included. Once parents are
linked, looking up a prefix from a node finds what the innermost of these tags says that declares it,
and nothing if none does.

A node is a text, or it stands for the first of these tags, and then every namespace that has been
stored for a name of the tag is the one that is found at the node for the prefix that the name was
written with.
-/
theorem lookUp_of_read (read : NodeTree.read text = .ok t) :
    ∃ outline, Scanner.Outlines text outline ∧
      (∀ other, Scanner.Outlines text other → other = outline) ∧ outline.length = t.size ∧
      ∀ id tags, outline[id]? = some tags →
        (∀ key, t.linkParents.lookUpNamespace id key = declared? tags key) ∧
        ((∃ content, (t.linkParents.node id).kind = .text content) ∨
          ∃ tag around, tags = tag :: around ∧
            tag.MeantAs (t.linkParents.lookUpNamespace id) (t.linkParents.node id).toNodeBody) := by
  obtain ⟨outer, body, below, ignorable, outline, meant, outlined, rfl, outlines⟩ :=
    outlines_of_read read
  have proper := proper_ofForest body below ignorable
  have linked := linked_linkParents proper
  let t := ofForest body below ignorable
  -- Above the outermost element there is nothing.
  have top : t.linkParents.lookUpNamespace root = declared? [outer] := by
    funext key
    have none_above : t.linkParents.ancestors root = [] := by
      unfold ancestors
      rw [show t.linkParents.size = below.size + 1 from
        (size_linkParents t).trans (size_ofForest body below ignorable), ancestorsFrom, linked.root]
    have own : (t.linkParents.node root).namespaces = outer.declarations :=
      (congrArg NodeBody.namespaces (body_linkParents proper root)).trans (namespaces_of_body meant)
    rw [lookUpNamespace, selfAndAncestors, none_above, declared?, List.findSome?_cons, own]
    rfl
  have laid := map_node_ofForest body below ignorable
  have found := outlined.lookUp proper laid .top (fun _ mem => mem) top
  have stands := outlined.stands 1
  refine ⟨_, outlines, fun other outlines' => outlines'.unique outlines, ?_, fun id tags is => ?_⟩
  · rw [List.length_cons, size_ofForest, found.length_eq, List.length_range']
  · have both : t.linkParents.lookUpNamespace id = declared? tags ∧
        (t.node id).toNodeBody.Stands tags := by
      cases id with
      | zero =>
        cases is
        exact ⟨top, .element rfl meant⟩
      | succ i =>
        rw [← laid, List.forall₂_map_right_iff] at stands
        rw [Nat.succ_eq_one_add]
        exact ⟨of_forall₂_range' found is, of_forall₂_range' stands is⟩
    obtain ⟨same, stands⟩ := both
    refine ⟨congrFun same, ?_⟩
    rw [body_linkParents proper]
    cases stands with
    | text content position is => exact .inl ⟨content, congrArg NodeBody.kind is⟩
    | @element tag around _ _ own meant =>
      refine .inr ⟨tag, around, own, meantAs_of_body (fun key => ?_) meant⟩
      rw [List.findSome?_map, same]
      rfl

/-- An element declares a prefix again, and the next one the default namespace with an odd spelling. -/
theorem lookUp_of_read_shadowed :
    let text := "<a xmlns=\"u\" xmlns:p=\"v\"><p:b xmlns:p=\"w\" p:k=\"1\"/>" ++
      "<p:c xmlns:=\"d\"><e>x</e></p:c></a>"
    let t : NodeTree := ⟨#[
      ⟨⟨.root, ⟨"u", "a"⟩, [], [], [("", "u"), ("p", "v")], ⟨1, 1⟩⟩, [1, 2], none⟩,
      ⟨⟨.element, ⟨"w", "b"⟩, [], [⟨⟨"w", "k"⟩, .raw "1", ⟨1, 43⟩⟩], [("p", "w")], ⟨1, 26⟩⟩, [],
        none⟩,
      ⟨⟨.element, ⟨"v", "c"⟩, [], [], [("", "d")], ⟨1, 52⟩⟩, [3], none⟩,
      ⟨⟨.element, ⟨"d", "e"⟩, [], [], [], ⟨1, 68⟩⟩, [4], none⟩,
      ⟨.ofText "x" ⟨1, 71⟩, [], none⟩], []⟩
    NodeTree.read text = .ok t ∧
      [1, 2, 4].map (t.linkParents.lookUpNamespace · "p") = [some "w", some "v", some "v"] ∧
      [0, 1, 4].map (t.linkParents.lookUpNamespace · "") = [some "u", some "u", some "d"] ∧
      ∃ outline, Scanner.Outlines text outline ∧ outline.length = t.size ∧
        ∀ id tags, outline[id]? = some tags →
          ∀ key, t.linkParents.lookUpNamespace id key = declared? tags key := by
  intro text t
  have read : NodeTree.read text = .ok t := NodeTree.read_of_toOption (by decide +kernel)
  obtain ⟨outline, outlines, -, length, each⟩ := lookUp_of_read read
  refine ⟨read, by decide +kernel, by decide +kernel, outline, outlines, length, ?_⟩
  exact fun id tags is => (each id tags is).1

end NodeTree

end MarkupLoader
