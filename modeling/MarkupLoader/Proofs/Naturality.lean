import MarkupLoader.Load.Assignment
import MarkupLoader.Load.Creation
import MarkupLoader.Proofs.Matching
import MarkupLoader.Schema.Controls

/-!
# What does not depend on the places of objects

Coercing, making objects, assigning and evaluating do with matching values in matching heaps what
they do with the values themselves. Extensions and factories are brought along by those who use
the loader; **natural** ones (`Extension.Natural`, `Factory.Natural`) cannot tell matched objects
apart, since all that they have of an object is what can be asked of it.

Main results: `Heaps.coerce`, `Heaps.make`, `Heaps.assignAll`, `alike_evaluate`,
`natural_builtIn`.
-/

namespace MarkupLoader

namespace Matching.Heaps

variable {M : Matching} {h k : Heap}

/-! ## Coercing -/

/-- A text is read without looking at the heap. -/
theorem alike_coerceText (text : String) (type : PropertyType) :
    Alike M.Values (coerceText text type) (coerceText text type) := by
  cases type <;> simp only [coerceText]
  case string => exact .ok (.string _)
  case object => exact .ok (.string _)
  case any => exact .ok (.string _)
  case collection => exact .error _
  case dictionary => exact .error _
  case bool =>
    cases bool? (Text.trim text.toList) with
    | some b => exact .ok (.bool b)
    | none => exact .error _
  case int =>
    cases Text.int64? (Text.trim text.toList) with
    | some n => exact .ok (.int n)
    | none => exact .error _
  case float =>
    cases Decimal.float? (Text.trim text.toList) with
    | some x => exact .ok (.float x)
    | none => exact .error _
  case oneOf =>
    split
    · exact .ok (.string _)
    · exact .error _

theorem coerceObject (heaps : M.Heaps h k) {i j : ObjectId} (related : M.rel i j)
    (type : PropertyType) :
    Alike M.Values (h.coerceObject i type) (k.coerceObject j type) := by
  have object : M.Values (.object i) (.object j) := .object related
  have name := heaps.typeName related
  cases type with
  | any => exact .ok object
  | object constraint =>
    cases constraint with
    | none => exact .ok object
    | some constraint =>
      simp only [Heap.coerceObject]
      rw [heaps.descriptor related, name]
      split
      · exact .ok object
      · exact .error _
  | collection =>
    simp only [Heap.coerceObject]
    rw [heaps.kind related, name]
    split
    · exact .ok object
    · exact .error _
  | dictionary =>
    simp only [Heap.coerceObject]
    rw [heaps.kind related, name]
    split
    · exact .ok object
    · exact .error _
  | _ =>
    simp only [Heap.coerceObject]
    rw [name]
    exact .error _

theorem coerce (heaps : M.Heaps h k) {v w : Value} (value : M.Values v w) (type : PropertyType) :
    Alike M.Values (h.coerce v type) (k.coerce w type) := by
  cases value with
  | null => exact .ok .null
  | string s =>
    have reads : ∀ h : Heap, h.coerce (.string s) type = coerceText s type := by
      intro h
      cases type <;> rfl
    rw [reads, reads]
    exact alike_coerceText s type
  | bool b =>
    cases type with
    | any => exact .ok (.bool b)
    | bool => exact .ok (.bool b)
    | string => exact .ok (.string _)
    | _ => exact .error _
  | int n =>
    cases type with
    | any => exact .ok (.int n)
    | int => exact .ok (.int n)
    | float => exact .ok (.float _)
    | string => exact .ok (.string _)
    | _ => exact .error _
  | float x =>
    cases type with
    | any => exact .ok (.float x)
    | float => exact .ok (.float x)
    | string => exact .ok (.string _)
    | _ => exact .error _
  | type name =>
    cases type with
    | any => exact .ok (.type name)
    | object constraint =>
      cases constraint with
      | none => exact .ok (.type name)
      | some constraint => exact .error _
    | _ => exact .error _
  | list length items =>
    cases type with
    | any => exact .ok (.list length items)
    | collection => exact .ok (.list length items)
    | _ => exact .error _
  | object related =>
    have asks : ∀ (h : Heap) (i : ObjectId), h.coerce (.object i) type = h.coerceObject i type := by
      intro h i
      cases type <;> rfl
    rw [asks, asks]
    exact heaps.coerceObject related type

end Matching.Heaps

/-! ## Making -/

/-- A factory that cannot tell matched objects apart. -/
def Factory.Natural (factory : Factory) : Prop :=
  ∀ (M : Matching) (name name' : Value → String) (given given' : List Value),
    (∀ v w, M.Values v w → name v = name' w) → List.Forall₂ M.Values given given' →
      Alike M.Entries (factory name given) (factory name' given')

/-- All factories of registered types are natural. -/
def Registry.Natural (r : Registry) : Prop :=
  ∀ typeName d, r.get? typeName = some d →
    ∀ name factory, d.factories.get? name = some factory → Factory.Natural factory

namespace Matching.Heaps

variable {M : Matching} {h k : Heap}

/-- What is made of matching arguments matches. -/
theorem make (heaps : M.Heaps h k) {d : TypeDescriptor}
    (natural : ∀ name factory, d.factories.get? name = some factory → Factory.Natural factory)
    {given given' : List Value} (arguments : List.Forall₂ M.Values given given')
    (factory : Option String) :
    Alike M.Objects (d.make h given factory) (d.make k given' factory) := by
  have bare : M.Objects (.ofType d) (.ofType d) := objects_ofType d
  have filled : ∀ {entries others : List (String × Value)}, M.Entries entries others →
      M.Objects { Object.ofType d with properties := .ofList entries }
        { Object.ofType d with properties := .ofList others } :=
    fun entries => { bare with properties := entries.ofList }
  cases factory with
  | some name =>
    simp only [TypeDescriptor.make]
    cases found : d.factories.get? name with
    | none => exact .error _
    | some factory =>
      dsimp only
      have made := natural name factory found M h.kindName k.kindName given given'
        (fun _ _ value => heaps.kindName value) arguments
      generalize factory h.kindName given = first at made
      generalize factory k.kindName given' = second at made
      cases made with
      | ok entries => exact .ok (filled entries)
      | error reason => exact .error _
  | none =>
    -- Every argument goes to the same parameter on both sides.
    have pairs : List.Forall₂ (fun p q => p.1 = q.1 ∧ M.Values p.2 q.2)
        (d.constructorParameters.zip given) (d.constructorParameters.zip given') := by
      generalize d.constructorParameters = parameters
      induction arguments generalizing parameters with
      | nil =>
        simp only [List.zip_nil_right]
        exact .nil
      | cons value _ ih =>
        cases parameters with
        | nil => exact .nil
        | cons parameter parameters => exact .cons ⟨rfl, value⟩ (ih parameters)
    have none : given.isEmpty = given'.isEmpty := by
      cases arguments with
      | nil => rfl
      | cons _ _ => rfl
    simp only [TypeDescriptor.make]
    rw [none, arguments.length_eq]
    split
    · exact .ok bare
    split
    · exact .error _
    refine (Alike.mapM pairs ?_).bind fun _ _ entries => .ok (filled entries)
    rintro ⟨parameter, argument⟩ ⟨_, argument'⟩ ⟨rfl, value⟩
    simp only [TypeDescriptor.coerceArgument]
    cases d.property? parameter with
    | none => exact .ok ⟨rfl, value⟩
    | some p =>
      dsimp only
      have coerced := heaps.coerce value p.type
      generalize h.coerce argument p.type = first at coerced
      generalize k.coerce argument' p.type = second at coerced
      cases coerced with
      | ok value => exact .ok ⟨rfl, value⟩
      | error fault => exact .error _

/-! ## Assigning -/

variable {i j : ObjectId}

theorem assign (heaps : M.Heaps h k) (related : M.rel i j) (target : Target) {v w : Value}
    (value : M.Values v w) : Alike M.Heaps (h.assign i target v) (k.assign j target w) := by
  have whole := heaps.set related target.key value
  unfold Heap.assign
  split
  · have isCollection := heaps.isOfKind value .collection
    have added := (heaps.append related target.key value).mapError AssignmentFault.notACollection
    cases value with
    | list length items => exact .ok whole
    | _ =>
      dsimp only
      rw [isCollection]
      split
      · exact .ok whole
      · exact added
  · have coerced := heaps.coerce value target.type
    generalize h.coerce v target.type = first at coerced
    generalize k.coerce w target.type = second at coerced
    cases coerced with
    | ok value => exact .ok (heaps.set related target.key value)
    | error fault => exact .error _

theorem assignAll (heaps : M.Heaps h k) (related : M.rel i j) (target : Target)
    {values values' : List Value} (matched : List.Forall₂ M.Values values values') :
    Alike M.Heaps (h.assignAll i target values) (k.assignAll j target values') := by
  unfold Heap.assignAll
  split
  · exact .ok heaps
  split
  · exact Alike.foldlM matched (fun _ _ _ _ heaps value => heaps.assign related target value) heaps
  · cases matched with
    | nil => exact .ok heaps
    | cons value rest =>
      cases rest with
      | nil => exact heaps.assign related target value
      | cons _ others =>
        dsimp only [List.length_cons]
        rw [others.length_eq]
        exact .error _

end Matching.Heaps

/-! ## Extensions -/

/-- Arguments that match one by one. -/
structure Matching.Arguments (M : Matching) (a b : MarkupLoader.Arguments) : Prop where
  positional : List.Forall₂ M.Values a.positional b.positional
  named : M.Entries a.named b.named

/-- Services that give matching answers. -/
structure Matching.Services (M : Matching) (s t : MarkupLoader.Services) : Prop where
  heap : M.Heaps s.heap t.heap
  registry : s.registry = t.registry
  node : s.node = t.node
  resource : ∀ key, Option.Rel M.Values (s.resource? key) (t.resource? key)
  named : ∀ name, Option.Rel M.Values (s.named? name) (t.named? name)
  typeName : s.typeName? = t.typeName?

/-- An extension that cannot tell matched objects apart. -/
def Extension.Natural (extension : Extension) : Prop :=
  ∀ (M : Matching) (a b : Arguments) (s t : Services), M.Arguments a b → M.Services s t →
    Alike M.Values (extension a s) (extension b t)

/-- All extensions are natural. -/
def Extensions.Natural (e : Extensions) : Prop :=
  ∀ name extension, e.known.get? name = some extension → Extension.Natural extension

namespace Extensions

variable {M : Matching} {e : Extensions} {a b : Arguments} {s t : Services}

theorem arguments_cons (arguments : M.Arguments a b) (key : Option String) {v w : Value}
    (value : M.Values v w) : M.Arguments (.cons key v a) (.cons key w b) := by
  cases key with
  | none => exact ⟨.cons value arguments.positional, arguments.named⟩
  | some key => exact ⟨arguments.positional, .cons ⟨rfl, value⟩ arguments.named⟩

/-- An extension that is found is the same on both sides. -/
theorem alike_lookUp (natural : e.Natural) (head : ExpressionHead) :
    Alike (fun f g => f = g ∧ Extension.Natural f) (e.lookUp head) (e.lookUp head) := by
  unfold lookUp
  split
  · obtain ⟨_, known⟩ := exists_known_of_get? ‹_›
    exact .ok ⟨rfl, natural _ _ known⟩
  · exact .error _

theorem alike_evaluateArgs (natural : e.Natural) (services : M.Services s t) (args : Args) :
    Alike M.Arguments (e.evaluateArgs s args) (e.evaluateArgs t args) := by
  induction args with
  | nil => exact .ok ⟨.nil, .nil⟩
  | text key value others ih =>
    exact ih.bind fun _ _ others => .ok (arguments_cons others key (.string value))
  | nested key head inner others inside later =>
    refine (alike_lookUp natural head).bind ?_
    rintro extension _ ⟨rfl, natural⟩
    refine inside.bind fun given given' arguments => ?_
    refine ((natural M given given' s t arguments services).mapError _).bind fun _ _ value => ?_
    exact later.bind fun _ _ others => .ok (arguments_cons others key value)

theorem alike_evaluate (natural : e.Natural) {site site' : Site}
    (services : M.Services site.services site'.services) (x : Expression) :
    Alike M.Values (e.evaluate site x) (e.evaluate site' x) := by
  refine (alike_lookUp natural x.head).bind ?_
  rintro extension _ ⟨rfl, extensionNatural⟩
  refine (alike_evaluateArgs natural services x.args).bind fun given given' arguments => ?_
  exact (extensionNatural M given given' _ _ arguments services).mapError _

/-! ### Built-in extensions -/

theorem arguments_get? (arguments : M.Arguments a b) (name : String) (position : Nat) :
    Option.Rel M.Values (a.get? name position) (b.get? name position) := by
  have named : Option.Rel M.Values (a.named.lookup name) (b.named.lookup name) := by
    have entries := arguments.named
    unfold Matching.Entries at entries
    generalize a.named = ps at entries
    generalize b.named = qs at entries
    induction entries with
    | nil => exact .none
    | @cons p q rest rest' here _ ih =>
      obtain ⟨key, v⟩ := p
      obtain ⟨key', w⟩ := q
      obtain ⟨rfl, value⟩ : key = key' ∧ M.Values v w := here
      rw [List.lookup_cons, List.lookup_cons]
      split
      · exact .some value
      · exact ih
  have positional : Option.Rel M.Values (a.positional[position]?) (b.positional[position]?) := by
    have values := arguments.positional
    generalize a.positional = vs at values
    generalize b.positional = ws at values
    induction values generalizing position with
    | nil => exact .none
    | cons value _ ih =>
      cases position with
      | zero => exact .some value
      | succ position => exact ih position
  exact Matching.Heaps.rel_or named positional

/-- An argument that has to be a text is the same on both sides. -/
theorem alike_text (arguments : M.Arguments a b) (services : M.Services s t) (name : String)
    (position : Nat) :
    Alike Eq (a.text s.heap name position) (b.text t.heap name position) := by
  unfold Arguments.text
  have given := arguments_get? arguments name position
  generalize a.get? name position = first at given
  generalize b.get? name position = second at given
  cases given with
  | none => exact .error _
  | some value =>
    have kindName := services.heap.kindName value
    cases value with
    | string text => exact .ok rfl
    | _ =>
      dsimp only
      rw [kindName]
      exact .error _

theorem natural_builtIn : builtIn.Natural := by
  have resource : Extension.Natural staticResource := by
    intro M a b s t arguments services
    refine (alike_text arguments services "Key" 0).bind ?_
    rintro key _ rfl
    have found := services.resource key
    generalize s.resource? key = first at found
    generalize t.resource? key = second at found
    cases found with
    | some value => exact .ok value
    | none => exact .error _
  have named : Extension.Natural reference := by
    intro M a b s t arguments services
    refine (alike_text arguments services "Name" 0).bind ?_
    rintro name _ rfl
    have found := services.named name
    generalize s.named? name = first at found
    generalize t.named? name = second at found
    cases found with
    | some value => exact .ok value
    | none => exact .error _
  have nothing : Extension.Natural null := fun _ _ _ _ _ _ _ => .ok .null
  have type : Extension.Natural typeReference := by
    intro M a b s t arguments services
    refine (alike_text arguments services "TypeName" 0).bind ?_
    rintro written _ rfl
    rw [services.typeName, services.registry]
    cases t.typeName? written with
    | none => exact .error _
    | some name =>
      dsimp only
      split
      · exact .ok (.type name)
      · exact .error _
  intro name extension found
  rcases eq_of_known_builtIn found with rfl | rfl | rfl | rfl
  · exact resource
  · exact named
  · exact nothing
  · exact type

end Extensions

/-! ### Built-in factories -/

namespace Color

/-- The arguments of a factory are looked at one by one. -/
theorem alike_channel {M : Matching} {name name' : Value → String}
    (names : ∀ v w, M.Values v w → name v = name' w) {v w : Value} (value : M.Values v w) :
    Alike Eq (channel name v) (channel name' w) := by
  have same := names v w value
  cases value with
  | string text =>
    unfold channel
    dsimp only
    cases Decimal.float? (Text.trim text.toList) with
    | some x => exact .ok rfl
    | none => exact .error _
  | int n => exact .ok rfl
  | float x => exact .ok rfl
  | _ =>
    unfold channel
    dsimp only [Value.float?]
    rw [same]
    exact .error _

theorem entries_properties (M : Matching) (red green blue alpha : Float) :
    M.Entries (properties red green blue alpha) (properties red green blue alpha) :=
  .cons ⟨rfl, .float red⟩ (.cons ⟨rfl, .float green⟩ (.cons ⟨rfl, .float blue⟩
    (.cons ⟨rfl, .float alpha⟩ .nil)))

theorem natural_fromHex : Factory.Natural fromHex := by
  intro M name name' given given' _ arguments
  -- Anything but one text is refused without being looked at.
  cases arguments with
  | nil => exact .error _
  | cons value rest =>
    cases rest with
    | cons _ _ => cases value <;> exact .error _
    | nil =>
      cases value with
      | string text =>
        unfold fromHex
        dsimp only
        cases made : ofHex? ((Text.trim text.toList).dropWhile (· == '#')) with
        | none => exact .error _
        | some color =>
          refine .ok ?_
          unfold ofHex? at made
          split at made
          · cases made
            exact entries_properties M _ _ _ _
          · cases made
            exact entries_properties M _ _ _ _
          · cases made
      | _ => exact .error _

theorem natural_fromRgba : Factory.Natural fromRgba := by
  intro M name name' given given' names arguments
  refine (Alike.mapM arguments fun v w value => alike_channel names value).bind ?_
  intro channels channels' same
  obtain rfl : channels = channels' := by rwa [List.forall₂_eq_eq_eq] at same
  split
  · exact .ok (entries_properties M _ _ _ _)
  · exact .error _

end Color

end MarkupLoader
