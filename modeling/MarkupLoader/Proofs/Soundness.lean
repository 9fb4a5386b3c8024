import MarkupLoader.Proofs.Request
import MarkupLoader.Proofs.Sites

/-!
# Loads keep the heap sound

A load that begins with a sound heap leaves one, whatever it is asked for, whether it tolerates
failures, and wherever it is given up: every declared property of every object, old or new, holds
a value of its declared type.

**A step** keeps a state sound (`KeepsAt`) and lets the heap grow: what was there before keeps its
type. Failures are no exception, since what has been done before one stays done.

Main results: `keeps_runPass`, `outcome_sound`.
-/

namespace MarkupLoader

/-- The types that a load may use are as the passes expect them. -/
structure Registry.Regular (r : Registry) : Prop where
  undotted : ∀ name d, r.get? name = some d → d.Undotted
  factories : ∀ name d, r.get? name = some d → d.FactoriesBuiltIn
  dictionary : ∀ d, r.get? resourceDictionaryName = some d → d.kind = .dictionary

/-! ## The standard controls -/

theorem mem_of_get?_registerAll {types : List TypeDescriptor} {r : Registry} {name : QName}
    {d : TypeDescriptor} (found : (types.foldl Registry.register r).get? name = some d) :
    d ∈ types ∨ r.get? name = some d := by
  induction types generalizing r with
  | nil => exact .inr found
  | cons first rest ih =>
    rcases ih found with mem | there
    · exact .inl (List.mem_cons_of_mem _ mem)
    · rcases Table.get?_insert there with ⟨-, rfl⟩ | before
      · exact .inl List.mem_cons_self
      · exact .inr before

/-- The standard controls are as the passes expect types. -/
theorem controls_regular : Registry.controls.Regular := by
  have known : ∀ {name d}, Registry.controls.get? name = some d → d ∈ Controls.all :=
    fun found => (mem_of_get?_registerAll found).resolve_right nofun
  have undotted : ∀ d ∈ Controls.all, d.Undotted := by decide +kernel
  have factories : ∀ d ∈ Controls.all, d.FactoriesBuiltIn := by
    have none : ∀ d ∈ Controls.all.dropLast, d.factories.entries.isEmpty = true := by decide
    intro d mem name make found
    rw [show Controls.all = Controls.all.dropLast ++ [Controls.color] from rfl] at mem
    rcases List.mem_append.1 mem with plain | color
    · rw [Table.get?, List.isEmpty_iff.1 (none d plain)] at found
      cases found
    · obtain rfl := List.mem_singleton.1 color
      refine ⟨?_, fun _ _ => rfl⟩
      rcases Table.get?_insert found with ⟨-, rfl⟩ | found
      · exact .inr rfl
      · rcases Table.get?_insert found with ⟨-, rfl⟩ | found
        · exact .inl rfl
        · cases found
  refine ⟨fun _ d found => undotted d (known found), fun _ d found => factories d (known found), ?_⟩
  have dictionary : (Registry.controls.get? resourceDictionaryName).all
      fun d => d.kind = .dictionary := by decide +kernel
  intro d found
  simpa [found] using dictionary

/-! ## Steps -/

namespace Load

variable {α β : Type}

/-- A step from a state keeps it sound, wherever it ends, and what it gives is as it should be. -/
structure KeepsAt (s : LoadState) (step : Load α) (gives : LoadState → α → Prop) : Prop where
  sound : (step.start s).2.Sound
  grows : s.heap.Grows (step.start s).2.heap
  result : ∀ a, (step.start s).1 = .ok a → gives (step.start s).2 a

/-- A step keeps states sound. -/
def Keeps (step : Load α) : Prop := ∀ s : LoadState, s.Sound → KeepsAt s step fun _ _ => True

section Rules

variable {s : LoadState} {gives : LoadState → α → Prop} {fine : LoadState → β → Prop}

theorem KeepsAt.pure {a : α} (sound : s.Sound) (good : gives s a) :
    KeepsAt s (Pure.pure a) gives where
  sound := sound
  grows := .refl _
  result _ is := Except.ok.inj is ▸ good

theorem KeepsAt.throw {error : LoadError} (sound : s.Sound) :
    KeepsAt s (MonadExcept.throw error : Load α) gives where
  sound := sound
  grows := .refl _
  result _ is := by cases is

theorem KeepsAt.get {next : LoadState → Load β} (h : KeepsAt s (next s) fine) :
    KeepsAt s (MonadState.get >>= next) fine := ⟨h.sound, h.grows, h.result⟩

theorem KeepsAt.bind {step : Load α} {next : α → Load β} (first : KeepsAt s step gives)
    (second : ∀ a t, t.Sound → s.heap.Grows t.heap → gives t a → KeepsAt t (next a) fine) :
    KeepsAt s (step >>= next) fine := by
  obtain ⟨sound, grows, result⟩ := first
  rcases ran : step.start s with ⟨error | a, t⟩ <;> rw [ran] at sound grows result
  · have run : (step >>= next).start s = (.error error, t) := by rw [start_bind, ran]
    exact ⟨by rwa [run], by rwa [run], by rw [run]; exact nofun⟩
  · have run : (step >>= next).start s = (next a).start t := by rw [start_bind, ran]
    obtain ⟨sound', grows', result'⟩ := second a t sound grows (result a rfl)
    exact ⟨by rwa [run], by rw [run]; exact grows.trans grows', by rwa [run]⟩

/-- A loop keeps a state sound if its steps do so from every state that the loop comes by. -/
theorem KeepsAt.forM {step : α → Load Unit} {list : List α} (sound : s.Sound)
    (each : ∀ a ∈ list, ∀ t : LoadState, t.Sound → s.heap.Grows t.heap →
      KeepsAt t (step a) fun _ _ => True) :
    KeepsAt s (list.forM step) fun _ _ => True := by
  induction list generalizing s with
  | nil => exact .pure sound trivial
  | cons a rest ih =>
    refine (each a List.mem_cons_self s sound (.refl _)).bind fun _ t sound grows _ => ?_
    refine ih sound fun b mem u sound' grows' => ?_
    exact each b (List.mem_cons_of_mem _ mem) u sound' (grows.trans grows')

theorem Keeps.forM {step : α → Load Unit} {list : List α} (each : ∀ a, Keeps (step a)) :
    Keeps (list.forM step) :=
  fun _ sound => .forM sound fun a _ t sound _ => each a t sound

theorem Keeps.bind {step : Load α} {next : α → Load β} (first : Keeps step)
    (second : ∀ a, Keeps (next a)) : Keeps (step >>= next) :=
  fun s sound => (first s sound).bind fun a t sound _ _ => second a t sound

end Rules

/-! ### Steps on the state -/

section Basic

variable {s : LoadState}

/-- A step that changes the state to a sound one. -/
theorem KeepsAt.change {t : LoadState} {step : Load Unit} (ran : step.start s = (.ok (), t))
    (sound : t.Sound) (grows : s.heap.Grows t.heap) : KeepsAt s step fun _ _ => True where
  sound := by rwa [ran]
  grows := by rwa [ran]
  result _ _ := trivial

theorem keeps_modifyTree (change : NodeTree → NodeTree) : Keeps (modifyTree change) :=
  fun _ sound => .change rfl { sound with } (.refl _)

theorem keeps_modifyHeap {change : Heap → Heap} (sound : s.Sound) (heap : (change s.heap).Sound)
    (grows : s.heap.Grows (change s.heap)) : KeepsAt s (modifyHeap change) fun _ _ => True :=
  .change rfl (sound.withHeap heap grows) grows

theorem keeps_recover (error : LoadError) : Keeps (recover error) := by
  intro s sound
  have run := start_recover error s
  by_cases recovers : s.context.tolerant && !error.isFatal
  · rw [Context.recover, if_pos recovers] at run
    exact .change run { sound with } (.refl _)
  · rw [Context.recover, if_neg recovers] at run
    exact ⟨by rwa [run], by rw [run]; exact .refl _, fun _ _ => trivial⟩

theorem keeps_changeHeap {outcome : Except LoadError Heap} (sound : s.Sound)
    (changes : ∀ heap, outcome = .ok heap → heap.Sound ∧ s.heap.Grows heap) :
    KeepsAt s (changeHeap outcome) fun _ _ => True := by
  cases outcome with
  | ok heap =>
    obtain ⟨heap, grows⟩ := changes heap rfl
    exact .change rfl (sound.withHeap heap grows) grows
  | error error => exact keeps_recover error s sound

theorem keeps_alloc {o : Object} (sound : s.Sound) (admitted : s.heap.Admits o) :
    KeepsAt s (alloc o) fun t id =>
      id < t.heap.size ∧ t.heap.kind id = o.kind where
  sound := sound.withHeap (sound.heap.alloc admitted) (Heap.grows_alloc _ o)
  grows := Heap.grows_alloc _ o
  result id is := by
    cases is
    refine ⟨?_, ?_⟩
    · show s.heap.objects.size < (s.heap.objects.push o).size
      simp
    · exact congrArg Object.kind (Heap.object_alloc s.heap o)

end Basic

/-! ### Passes before there are values -/

theorem keeps_expandAttributes (env : Environment) (id : NodeId) (rest : List Attribute) :
    ∀ done, Keeps (expandAttributes env id done rest) := by
  induction rest with
  | nil => exact fun done => keeps_modifyTree _
  | cons a rest ih =>
    intro done s sound
    refine .get ?_
    cases s.tree.expandAttribute env.extensions id a with
    | ok a => exact ih _ s sound
    | error error =>
      refine Keeps.bind (keeps_modifyTree _) (fun _ => ?_) s sound
      exact Keeps.bind (keeps_recover error) fun _ => ih done

theorem keeps_expandMarkup (env : Environment) : Keeps (expandMarkup env) := by
  refine fun s sound => .get (Keeps.forM (fun id t sound => ?_) s sound)
  refine .get ?_
  split
  · exact .pure sound trivial
  · exact keeps_expandAttributes env id _ [] t sound

/-- A new scope has no names. -/
theorem sound_newScope {s : LoadState} (sound : s.Sound) (parent : Option ScopeId) :
    ({ s with context := (s.context.newScope parent).2 } : LoadState).Sound where
  heap := sound.heap
  values := sound.values
  names scope name value held := by
    unfold Context.newScope Context.scope at held
    rw [Array.getElem?_push] at held
    split at held
    · cases held
    · exact sound.names scope name value held
  outerScope := sound.outerScope
  root := sound.root

theorem keeps_contentScope (opened : Table NodeId ScopeId) (template : NodeId)
    (around : ScopeId) : Keeps (contentScope opened template around) := by
  intro s sound
  unfold contentScope
  split
  · exact .pure sound trivial
  · exact ⟨sound_newScope sound (some around), .refl _, fun _ _ => trivial⟩

theorem keeps_assignScope (env : Environment) (rootScope : ScopeId)
    (opened : Table NodeId ScopeId) (id : NodeId) :
    Keeps (assignScope env rootScope opened id) := by
  intro s sound
  refine .get ?_
  have gives : ∀ found : ScopeId × Table NodeId ScopeId, Keeps (do
      modifyContext (·.setNodeScope id found.1)
      return found.2) := fun found =>
    Keeps.bind (fun _ sound => .change rfl { sound with } (.refl _))
      fun _ _ sound => .pure sound trivial
  cases (s.node id).parent with
  | none => exact .pure sound trivial
  | some parent =>
    dsimp only
    split
    · exact Keeps.bind (keeps_contentScope _ _ _) gives s sound
    · exact Keeps.bind (fun _ sound => .pure sound trivial) gives s sound

theorem Keeps.foldlM {step : β → α → Load β} (each : ∀ b a, Keeps (step b a)) (list : List α) :
    ∀ b, Keeps (list.foldlM step b) := by
  induction list with
  | nil => exact fun b _ sound => .pure sound trivial
  | cons a rest ih => exact fun b => Keeps.bind (each b a) ih

theorem keeps_assignScopes (env : Environment) : Keeps (assignScopes env) := by
  refine fun s sound => .get ?_
  refine KeepsAt.bind (.change rfl { sound_newScope sound none with } (.refl _))
    fun _ t sound _ _ => ?_
  exact Keeps.bind (Keeps.foldlM (keeps_assignScope env _) _ _)
    (fun _ _ sound => .pure sound trivial) t sound

/-! ### Creation -/

/-- What has been made for a node may be added to the heap. -/
theorem admits_makeObject {s : LoadState} {env : Environment} (regular : env.registry.Regular)
    (sound : s.Sound) {id : NodeId} {o : Object} (made : s.makeObject env id = .ok o) :
    s.heap.Admits o := by
  unfold LoadState.makeObject at made
  dsimp only at made
  split at made
  · cases made
  case h_2 d found =>
    split at made
    · cases made
    case h_2 plain given =>
      have arguments : ∀ v ∈ s.argumentValues id, s.heap.Has v := by
        intro v mem
        unfold LoadState.argumentValues at mem
        split at mem
        · cases mem
        · obtain ⟨child, -, held⟩ := List.mem_filterMap.1 mem
          exact sound.values child v held
      have admits : s.heap.Admits plain :=
        admits_of_make (regular.undotted _ _ found) (regular.factories _ _ found) arguments given
      split at made
      · obtain ⟨kept, content, made⟩ := ok_of_bind made
        cases made
        refine { admits with templates := fun content is around mem => ?_ }
        rw [LoadState.outerScope_templateContent ‹_› content is] at mem
        cases mem
      · cases made
        exact admits

theorem keeps_settleMade {s : LoadState} {env : Environment} (regular : env.registry.Regular)
    (sound : s.Sound) {id : NodeId} {made : Made} (is : s.make env id = .ok made) :
    KeepsAt s (settleMade made) fun t value => t.heap.Has value := by
  unfold LoadState.make at is
  dsimp only at is
  split at is
  case h_1 value scalar =>
    cases is
    split at scalar
    · exact .pure sound (Heap.has_of_references (references_of_simple (simple_scalar scalar)))
    · cases scalar
  · cases is
  · obtain ⟨o, given, rfl⟩ := ok_of_map is
    refine (keeps_alloc sound (admits_makeObject regular sound given)).bind
      fun new t sound _ there => ?_
    exact .pure sound (Heap.has_object.2 there.1)

theorem keeps_adoptRoot {s : LoadState} (sound : s.Sound) {id : ObjectId}
    (there : id < s.heap.size) : KeepsAt s (adoptRoot id) fun _ _ => True := by
  refine .change rfl { sound with root := ?_ } (.refl _)
  rintro _ ⟨⟩
  exact there

theorem keeps_setValue {s : LoadState} (sound : s.Sound) {value : Value}
    (has : s.heap.Has value) (id : NodeId) : KeepsAt s (setValue id value) fun _ _ => True := by
  have run := start_setValue id value s
  split at run
  · exact ⟨by rwa [run], by rw [run]; exact .refl _, fun _ _ => trivial⟩
  · refine .change run { sound with values := fun other found held => ?_ } (.refl _)
    rcases Table.get?_insert held with ⟨-, rfl⟩ | before
    · exact has
    · exact sound.values other found before

theorem keeps_createRoot {env : Environment} (regular : env.registry.Regular) :
    Keeps (createRoot env) := by
  intro s sound
  refine .get ?_
  split
  · exact .change rfl { sound with } (.refl _)
  · split
    · exact .pure sound trivial
    · cases made : s.make env NodeTree.root with
      | error error => exact .throw sound
      | ok made =>
        refine (keeps_settleMade regular sound made).bind fun value t sound _ has => ?_
        split
        · exact keeps_adoptRoot sound (Heap.has_object.1 has)
        · exact .throw sound

theorem keeps_createNode {env : Environment} (regular : env.registry.Regular) (id : NodeId) :
    Keeps (createNode env id) := by
  intro s sound
  refine .get ?_
  cases is : s.make env id with
  | ok made =>
    refine (keeps_settleMade regular sound is).bind fun value t sound _ has => ?_
    dsimp only
    split
    · split
      · refine (keeps_adoptRoot sound (Heap.has_object.1 has)).bind fun _ u sound' grows _ => ?_
        exact keeps_setValue sound' (has.grows grows) id
      · exact keeps_setValue sound has id
    · exact keeps_setValue sound has id
  | error error =>
    dsimp only
    split
    · exact .throw sound
    · exact Keeps.bind (keeps_recover error) (fun _ => keeps_modifyTree _) s sound

theorem keeps_createValues {env : Environment} (regular : env.registry.Regular) :
    Keeps (createValues env) := by
  refine fun s sound => .get (Keeps.forM (fun id t sound => ?_) s sound)
  refine .get ?_
  split
  · exact .pure sound trivial
  · split
    case h_1 root is =>
      split
      · have has : t.heap.Has (.object root) := Heap.has_object.2 (sound.root root is)
        refine (keeps_setValue sound has _).bind fun _ _ sound _ _ => ?_
        exact .change rfl { sound with } (.refl _)
      · exact keeps_createNode regular id t sound
    · exact keeps_createNode regular id t sound

/-! ### Names -/

/-- A name is registered for a value that a node has. -/
theorem has_of_naming {s : LoadState} (sound : s.Sound) {id : NodeId} {n : Naming}
    (found : s.naming? id = some n) : s.heap.Has n.value := by
  obtain ⟨a, -, found⟩ := Option.bind_eq_some_iff.1 found
  obtain ⟨name, -, found⟩ := Option.bind_eq_some_iff.1 found
  obtain ⟨value, held, found⟩ := Option.bind_eq_some_iff.1 found
  obtain ⟨scope, -, found⟩ := Option.bind_eq_some_iff.1 found
  cases found
  exact sound.values id value held

theorem sound_register {s : LoadState} (sound : s.Sound) {n : Naming} (has : s.heap.Has n.value)
    {context : Context} (registered : s.context.register n.scope n.name n.value = some context) :
    ({ s with context := context } : LoadState).Sound := by
  have names : ∀ scope name value, (context.scope scope).names.get? name = some value →
      s.heap.Has value := by
    intro scope name value held
    rcases Context.get?_names_register registered held with rfl | before
    · exact has
    · exact sound.names scope name value before
  obtain rfl := Context.eq_of_register registered
  exact { sound with names := names }

theorem keeps_registerName (id : NodeId) : Keeps (registerName id) := by
  intro s sound
  refine .get ?_
  split
  · exact .pure sound trivial
  case h_2 n found =>
    split
    · exact .change rfl (sound_register sound (has_of_naming sound found) ‹_›) (.refl _)
    · exact keeps_recover _ s sound

/-! ### Dictionaries -/

theorem keeps_fillEntry (dictionary : ObjectId) (id : NodeId) :
    Keeps (fillEntry dictionary id) := by
  intro s sound
  refine .get ?_
  dsimp only
  split
  · exact .pure sound trivial
  · split
    · exact .pure sound trivial
    case h_2 value held =>
      have has : s.heap.Has value := sound.values id value held
      split
      · exact keeps_modifyHeap sound (sound.heap.putEntry has) (Heap.grows_putEntry _ _ _ _)
      · exact keeps_recover _ s sound

/-- A property of dictionary type is made to hold a dictionary. -/
theorem sound_setDictionary {h : Heap} (sound : h.Sound) {owner dictionary : ObjectId}
    {property : String} (inside : dictionary < h.size) (kind : h.kind dictionary = .dictionary)
    (declared : ∀ p, (h.descriptor owner).property? property = some p → p.type = .dictionary) :
    (h.set owner property (.object dictionary)).Sound := by
  refine sound.set (Heap.has_object.2 inside) fun p found => ?_
  rw [declared p found]
  exact .dictionary kind

theorem keeps_dictionaryFor {env : Environment} (regular : env.registry.Regular) {s : LoadState}
    (sound : s.Sound) {owner : ObjectId} {property : String} (position : Position)
    (inside : owner < s.heap.size)
    (declared : ∀ p, (s.heap.descriptor owner).property? property = some p →
      p.type = .dictionary) :
    KeepsAt s (dictionaryFor env owner property position) fun _ _ => True := by
  refine .get ?_
  dsimp only
  split
  · exact .pure sound trivial
  · split
    case h_1 d found =>
      have admitted := admits_ofType (h := s.heap) (regular.undotted _ d found)
      refine (keeps_alloc sound admitted).bind fun created t sound grows made => ?_
      have kind : t.heap.kind created = .dictionary := made.2.trans (regular.dictionary d found)
      have set := sound_setDictionary sound.heap made.1 kind
        (by rwa [grows.descriptor owner inside])
      exact (keeps_modifyHeap sound set (Heap.grows_set _ _ _ _)).bind
        fun _ _ sound _ _ => .pure sound trivial
    · exact Keeps.bind (keeps_recover _) (fun _ _ sound => .pure sound trivial) s sound

theorem keeps_fillProperty {env : Environment} (regular : env.registry.Regular) {s : LoadState}
    (sound : s.Sound) (id : NodeId) {owner : ObjectId} {property : String}
    (inside : owner < s.heap.size)
    (declared : ∀ p, (s.heap.descriptor owner).property? property = some p →
      p.type = .dictionary) :
    KeepsAt s (fillProperty env id owner property) fun _ _ => True := by
  refine .get ?_
  split
  case h_1 dictionary explicit =>
    unfold LoadState.onlyDictionary? at explicit
    split at explicit
    · obtain ⟨found, is⟩ := Option.filter_eq_some_iff.1 explicit
      have set := sound_setDictionary sound.heap (sound.object found) (of_decide_eq_true is) declared
      exact keeps_modifyHeap sound set (Heap.grows_set _ _ _ _)
    · cases explicit
  · refine (keeps_dictionaryFor regular sound _ inside declared).bind fun dictionary t sound _ _ => ?_
    cases dictionary with
    | some dictionary => exact Keeps.forM (keeps_fillEntry dictionary) t sound
    | none => exact .pure sound trivial

theorem keeps_fillPropertyElement {env : Environment} (regular : env.registry.Regular)
    (id : NodeId) (name : QName) : Keeps (fillPropertyElement env id name) := by
  intro s sound
  refine .get ?_
  split
  · exact .pure sound trivial
  case h_2 owner found =>
    obtain ⟨parent, -, found⟩ := Option.bind_eq_some_iff.1 found
    dsimp only
    split
    case h_1 p declared =>
      split
      case isTrue is =>
        refine keeps_fillProperty regular sound id (sound.object found) fun q declared' => ?_
        obtain rfl : p = q := Option.some.inj (declared.symm.trans declared')
        exact is
      case isFalse => exact .pure sound trivial
    · exact .pure sound trivial

theorem keeps_fillNode {env : Environment} (regular : env.registry.Regular) (id : NodeId) :
    Keeps (fillNode env id) := by
  intro s sound
  refine .get ?_
  split
  · exact .pure sound trivial
  · exact keeps_fillPropertyElement regular id _ s sound
  · split
    · split
      · exact Keeps.forM (keeps_fillEntry _) s sound
      · exact .pure sound trivial
    · exact .pure sound trivial

/-! ### Assignment -/

/-- A template remembers the objects around it, which are there. -/
theorem keeps_captureScope {s : LoadState} (sound : s.Sound) (object : ObjectId)
    {scope : List ObjectId} (there : ∀ id ∈ scope, id < s.heap.size) :
    KeepsAt s (captureScope object scope) fun _ _ => True := by
  refine keeps_modifyHeap sound (sound.heap.modify (fun _ => rfl) ?_)
    (Heap.grows_modify _ _ fun _ => rfl)
  refine { sound.heap object with templates := fun content is around mem => ?_ }
  obtain ⟨old, -, rfl⟩ := Option.map_eq_some_iff.1 is
  exact there around mem

theorem keeps_applyAttributes {env : Environment} (closed : env.extensions.Closed) (id : NodeId)
    (object : ObjectId) : Keeps (applyAttributes env id object) := by
  refine fun s sound => .get (Keeps.forM (fun a t sound => ?_) s sound)
  exact .get (keeps_changeHeap sound fun heap applied => sound.applyAttribute closed applied)

theorem keeps_applyChildren (env : Environment) (id : NodeId) {s : LoadState} (sound : s.Sound)
    {object : ObjectId} (inside : object < s.heap.size) :
    KeepsAt s (applyChildren env id object) fun _ _ => True := by
  refine .get ?_
  split
  · exact .pure sound trivial
  · exact .pure sound trivial
  · refine .forM sound fun child _ t sound grows => .get ?_
    have inside' : object < t.heap.size := Nat.lt_of_lt_of_le inside grows.size
    exact keeps_changeHeap sound fun heap applied => sound.applyChild inside' applied

theorem keeps_applyNode {env : Environment} (closed : env.extensions.Closed) (id : NodeId) :
    Keeps (applyNode env id) := by
  intro s sound
  refine .get ?_
  split
  · exact .pure sound trivial
  case h_2 object found =>
    have inside : object < s.heap.size := sound.object found
    have applies : ∀ t : LoadState, t.Sound → s.heap.Grows t.heap → KeepsAt t (do
        applyAttributes env id object
        applyChildren env id object) fun _ _ => True := by
      intro t sound grows
      refine (keeps_applyAttributes closed id object t sound).bind fun _ u sound grows' _ => ?_
      exact keeps_applyChildren env id sound (Nat.lt_of_lt_of_le inside (grows.trans grows').size)
    dsimp only
    split
    · have around : ∀ id' ∈ (s.site env id).outerScope, id' < s.heap.size := by
        intro id' mem
        rcases List.mem_append.1 mem with above | outer
        · obtain ⟨node, -, found⟩ := List.mem_filterMap.1 above
          exact sound.object found
        · exact sound.outerScope id' outer
      exact (keeps_captureScope sound object around).bind fun _ t sound grows _ =>
        applies t sound grows
    · exact applies s sound (.refl _)

/-! ### All passes -/

/-- Every pass keeps a load sound. -/
theorem keeps_runPass {env : Environment} (regular : env.registry.Regular)
    (closed : env.extensions.Closed) (pass : Pass) : Keeps (runPass env pass) := by
  cases pass with
  | parentLinking => exact keeps_modifyTree _
  | markupExpansion => exact keeps_expandMarkup env
  | pruneIgnored => exact keeps_modifyTree _
  | namescoping => exact keeps_assignScopes env
  | valueCreation => exact keeps_createValues regular
  | nameRegistration => exact fun s sound => .get (Keeps.forM keeps_registerName s sound)
  | resourceDictionaryFill =>
    exact fun s sound => .get (Keeps.forM (keeps_fillNode regular) s sound)
  | propertyApplication =>
    exact fun s sound => .get (Keeps.forM (keeps_applyNode closed) s sound)

/-- All passes one after the other keep a load sound. -/
theorem keeps_runPasses {env : Environment} (regular : env.registry.Regular)
    (closed : env.extensions.Closed) : Keeps (runPasses env) := by
  refine Keeps.forM fun pass => Keeps.bind (keeps_runPass regular closed pass) fun _ => ?_
  exact fun _ sound => .change rfl { sound with } (.refl _)

end Load

/-! ## Requests -/

namespace Request

/-- The object that a request is about is there. -/
def Within (h : Heap) : Request → Prop
  | create _ => True
  | loadInto target _ => target < h.size
  | instantiate _ => True

theorem keeps_steps {env : Environment} (regular : env.registry.Regular)
    (closed : env.extensions.Closed) (request : Request) : Load.Keeps (request.steps env) := by
  have created : Load.Keeps (Loader.createThenRun env) :=
    Load.Keeps.bind (Load.keeps_createRoot regular) fun _ => Load.keeps_runPasses regular closed
  cases request with
  | create markup => exact created
  | loadInto target markup => exact Load.keeps_runPasses regular closed
  | instantiate template => exact created

/-- At first no node has a value and no name is registered. -/
theorem sound_start {h : Heap} (sound : h.Sound) (tree : NodeTree) (tolerant : Bool)
    {root : Option ObjectId} (inside : ∀ id, root = some id → id < h.size) {outer : List ObjectId}
    (around : ∀ id ∈ outer, id < h.size) :
    (LoadState.initial tree root (.start root tolerant outer) h).Sound where
  heap := sound
  values _ _ held := by cases held
  names _ _ _ held := by cases held
  outerScope := around
  root := inside

/-- A load begins in a sound state, with the heap as it is. -/
theorem sound_initial {tolerant : Bool} {h : Heap} {request : Request} (sound : h.Sound)
    (within : request.Within h) {s : LoadState} (begins : request.initial tolerant h = .ok s) :
    s.Sound ∧ s.heap = h := by
  cases request with
  | create markup =>
    simp only [initial] at begins
    cases read : NodeTree.read markup with
    | error fault => rw [read] at begins; cases begins
    | ok tree =>
      rw [read] at begins
      cases begins
      refine ⟨sound_start sound _ _ (fun _ is => ?_) fun _ mem => ?_, rfl⟩
      · cases is
      · cases mem
  | loadInto target markup =>
    simp only [initial] at begins
    cases read : NodeTree.read markup with
    | error fault => rw [read] at begins; cases begins
    | ok tree =>
      rw [read] at begins
      cases begins
      refine ⟨sound_start sound _ _ (fun _ is => ?_) fun _ mem => ?_, rfl⟩
      · cases is
        exact within
      · cases mem
  | instantiate template =>
    simp only [initial] at begins
    cases kept : (h.object template).template with
    | none => rw [kept] at begins; cases begins
    | some content =>
      rw [kept] at begins
      cases begins
      refine ⟨sound_start sound _ _ (fun _ is => ?_) fun id mem => ?_, rfl⟩
      · cases is
      · exact (sound template).templates content kept id (List.mem_filter.1 mem).1

/--
**Loads keep the heap sound.** Whatever is asked for, tolerant or not, and wherever the load ends:
if every declared property held a value of its declared type before, every declared property of
every object does so afterwards, and the objects that were there keep their types.
-/
theorem outcome_sound {env : Environment} (regular : env.registry.Regular)
    (closed : env.extensions.Closed) {h : Heap} (sound : h.Sound) {request : Request}
    (within : request.Within h) (tolerant : Bool) :
    (request.outcome env tolerant h).heap.Sound ∧
      h.Grows (request.outcome env tolerant h).heap := by
  rw [outcome_eq]
  unfold run
  cases begins : request.initial tolerant h with
  | error error => exact ⟨sound, .refl h⟩
  | ok s =>
    obtain ⟨begun, rfl⟩ := sound_initial sound within begins
    obtain ⟨after, grows, -⟩ := keeps_steps regular closed request s begun
    have leaves : (Run.ofStep (request.steps env) s).outcome.heap =
        ((request.steps env).start s).2.heap := by
      unfold Run.outcome
      split <;> rfl
    have both : ((request.steps env).start s).2.heap.Sound ∧
        s.heap.Grows ((request.steps env).start s).2.heap := ⟨after.heap, grows⟩
    rwa [← leaves] at both

/-- A label may be loaded into. -/
theorem outcome_sound_label :
    let env : Environment := ⟨.controls, .builtIn⟩
    let h := (Heap.empty.alloc (.ofType Controls.label)).2
    let request : Request := .loadInto 0 "<Label Grid.Row=\"1\">a</Label>"
    env.registry.Regular ∧ env.extensions.Closed ∧ h.Sound ∧ request.Within h ∧
      (request.outcome env true h).heap.Sound ∧ h.Grows (request.outcome env true h).heap := by
  intro env h request
  have empty : Heap.empty.Sound := fun id => admits_ofType (d := default) nofun
  have label : h.Sound := empty.alloc (admits_ofType (by decide +kernel))
  have within : request.Within h := Nat.zero_lt_one
  exact ⟨controls_regular, Extensions.closed_builtIn, label, within,
    outcome_sound controls_regular Extensions.closed_builtIn label within true⟩

end Request

end MarkupLoader
