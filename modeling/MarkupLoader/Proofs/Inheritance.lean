import MarkupLoader.Config
import MarkupLoader.Load.Assignment
import MarkupLoader.Proofs.Failing
import MarkupLoader.Schema.Controls

/-!
# What derived types take over

A type is derived from its base when it is registered: what the base has by then is copied, and
what becomes of the base's name later does not matter. **The lineage of a type** is what the type
declares itself, followed by the lineage that its base had when the type was registered.

* **The type of a lineage** (`TypeDescriptor.ofLineage`) derives each declaration from those behind
  it.
* **A ledger** keeps the lineages of a registry. The controls have theirs (`Ledger.controls`), and
  applying a configuration records those of the types that it registers (`Ledger.apply`).
* **A type follows its lineage** (`TypeDescriptor.Follows`) if whatever it is asked is answered by
  the nearest declaration in its lineage that says something about it.

Main result: `Registry.configured_follow`.
-/

namespace MarkupLoader

/-! ## Lineages -/

/-- What a type declares itself, then what its base does, and so on. -/
abbrev Lineage := List TypeDescriptor

namespace TypeDescriptor

/-- The type of a lineage. -/
def ofLineage : Lineage → TypeDescriptor
  | [] => default
  | [own] => own
  | own :: base :: bases => own.derivedFrom (ofLineage (base :: bases))

/-- A type that only says what it declares itself. -/
structure Declared (own : TypeDescriptor) : Prop where
  distinct : (own.properties.map (·.name)).Nodup
  ancestry : own.ancestry = []

/-- A type answers as the nearest declaration in its lineage does. -/
structure Follows (d : TypeDescriptor) (lineage : Lineage) : Prop where
  /-- The type itself stands first. -/
  head : ∃ own bases, lineage = own :: bases ∧ own.name = d.name
  distinct : (d.properties.map (·.name)).Nodup
  property? : ∀ name, d.property? name = lineage.findSome? (·.property? name)
  isAssignableTo : ∀ name,
    d.isAssignableTo name = true ↔ ∃ own ∈ lineage, own.name.localName = name
  kind : d.kind = ((lineage.find? (·.kind ≠ .plain)).map (·.kind)).getD .plain
  content : d.contentProperty = lineage.findSome? (·.contentProperty)
  /-- The content property is one of the type's own or inherited properties. -/
  declared : ∀ name, d.contentProperty = some name → (d.property? name).isSome
  /-- Content has nowhere to go only where no content property is declared. -/
  target : ∀ fault, d.contentTarget = .error fault → d.contentProperty = none

/-! ## Deriving -/

theorem inherit_cons (own base : List Property) (p : Property) :
    inherit own (p :: base) =
      inherit (if own.any (·.name == p.name) then own else own ++ [p]) base := rfl

/-- The nearer declaration is the one that is found. -/
theorem find?_inherit (name : String) (base : List Property) : ∀ own : List Property,
    (inherit own base).find? (·.name == name) =
      (own.find? (·.name == name)).or (base.find? (·.name == name)) := by
  induction base with
  | nil => exact fun own => (Option.or_none).symm
  | cons p base ih =>
    intro own
    rw [inherit_cons, ih, List.find?_cons]
    by_cases overridden : own.any (·.name == p.name) = true
    · rw [if_pos overridden]
      cases same : p.name == name with
      | false => rfl
      | true =>
        -- The own declaration is found before either of the others is looked at.
        obtain rfl : p.name = name := by simpa using same
        obtain ⟨q, mem, sameName⟩ := List.any_eq_true.1 overridden
        have found : (own.find? (·.name == p.name)).isSome :=
          List.find?_isSome.2 ⟨q, mem, sameName⟩
        obtain ⟨first, is⟩ := Option.isSome_iff_exists.1 found
        rw [is, Option.some_or, Option.some_or]
    · rw [if_neg overridden, List.find?_append, Option.or_assoc, List.find?_cons]
      cases same : p.name == name with
      | false => simp
      | true => simp

theorem property?_derivedFrom (d base : TypeDescriptor) (name : String) :
    (d.derivedFrom base).property? name = (d.property? name).or (base.property? name) :=
  find?_inherit name base.properties d.properties

/-- A declaration with a new name may be added. -/
theorem nodup_append_new {declared : List Property} {p : Property}
    (distinct : (declared.map (·.name)).Nodup) (new : ∀ q ∈ declared, q.name ≠ p.name) :
    ((declared ++ [p]).map (·.name)).Nodup := by
  rw [List.map_append]
  refine List.nodup_append.2 ⟨distinct, List.pairwise_singleton _ _, ?_⟩
  intro a mem b last
  obtain ⟨q, listed, rfl⟩ := List.mem_map.1 mem
  rw [List.mem_singleton.1 last]
  exact new q listed

theorem nodup_inherit (base : List Property) : ∀ own : List Property,
    (own.map (·.name)).Nodup → ((inherit own base).map (·.name)).Nodup := by
  induction base with
  | nil => exact fun own distinct => distinct
  | cons p base ih =>
    intro own distinct
    rw [inherit_cons]
    refine ih _ ?_
    split
    · exact distinct
    · rename_i new
      refine nodup_append_new distinct fun q listed same => new ?_
      exact List.any_eq_true.2 ⟨q, listed, by simpa using same⟩

theorem nodup_declare {declared : List Property} (distinct : (declared.map (·.name)).Nodup)
    (name : String) (type : PropertyType) : ((declare declared name type).map (·.name)).Nodup := by
  refine nodup_append_new (distinct.sublist (List.filter_sublist.map _)) fun q listed => ?_
  simpa using (List.mem_filter.1 listed).2

/-! ## The type of a lineage -/

theorem ofLineage_cons (own : TypeDescriptor) {bases : Lineage} (some : bases ≠ []) :
    ofLineage (own :: bases) = own.derivedFrom (ofLineage bases) := by
  cases bases with
  | nil => exact absurd rfl some
  | cons base bases => rfl

end TypeDescriptor

/-- A lineage of declarations, of which each says only what it declares itself, so that the content
property is declared among them. -/
structure Lineage.Sound (lineage : Lineage) : Prop where
  nonempty : lineage ≠ []
  own : ∀ own ∈ lineage, own.Declared
  content : ∀ name, (TypeDescriptor.ofLineage lineage).contentProperty = some name →
    ((TypeDescriptor.ofLineage lineage).property? name).isSome

namespace TypeDescriptor

section Lineage

variable {lineage : Lineage}

theorem name_ofLineage (own : TypeDescriptor) (bases : Lineage) :
    (ofLineage (own :: bases)).name = own.name := by
  cases bases <;> rfl

theorem nodup_ofLineage (nonempty : lineage ≠ []) (declared : ∀ own ∈ lineage, own.Declared) :
    ((ofLineage lineage).properties.map (·.name)).Nodup := by
  cases lineage with
  | nil => exact absurd rfl nonempty
  | cons own bases =>
    have distinct := (declared own List.mem_cons_self).distinct
    cases bases with
    | nil => exact distinct
    | cons base bases => exact nodup_inherit _ _ distinct

theorem findSome?_cons_or {α : Type} (f : TypeDescriptor → Option α) (own : TypeDescriptor)
    (bases : Lineage) : (own :: bases).findSome? f = (f own).or (bases.findSome? f) := by
  rw [List.findSome?_cons]
  cases f own <;> rfl

theorem property?_ofLineage (nonempty : lineage ≠ []) (name : String) :
    (ofLineage lineage).property? name = lineage.findSome? (·.property? name) := by
  induction lineage with
  | nil => exact absurd rfl nonempty
  | cons own bases ih =>
    rw [findSome?_cons_or]
    by_cases last : bases = []
    · rw [last]
      exact (Option.or_none).symm
    · rw [ofLineage_cons own last, property?_derivedFrom, ih last]

theorem content_ofLineage (nonempty : lineage ≠ []) :
    (ofLineage lineage).contentProperty = lineage.findSome? (·.contentProperty) := by
  induction lineage with
  | nil => exact absurd rfl nonempty
  | cons own bases ih =>
    rw [findSome?_cons_or]
    by_cases last : bases = []
    · rw [last]
      exact (Option.or_none).symm
    · rw [ofLineage_cons own last, ← ih last]
      rfl

theorem isAssignableTo_ofLineage (nonempty : lineage ≠ [])
    (declared : ∀ own ∈ lineage, own.Declared) (name : String) :
    (ofLineage lineage).isAssignableTo name = true ↔
      ∃ own ∈ lineage, own.name.localName = name := by
  induction lineage with
  | nil => exact absurd rfl nonempty
  | cons own bases ih =>
    have alone : own.isAssignableTo name = true ↔ own.name.localName = name := by
      rw [isAssignableTo, (declared own List.mem_cons_self).ancestry]
      simp
    by_cases last : bases = []
    · rw [last]
      simp [ofLineage, alone]
    · rw [ofLineage_cons own last, isAssignableTo_derivedFrom, Bool.or_eq_true, alone,
        ih last fun base mem => declared base (List.mem_cons_of_mem _ mem)]
      simp

theorem kind_ofLineage (nonempty : lineage ≠ []) :
    (ofLineage lineage).kind =
      ((lineage.find? (·.kind ≠ .plain)).map (·.kind)).getD .plain := by
  induction lineage with
  | nil => exact absurd rfl nonempty
  | cons own bases ih =>
    rw [List.find?_cons]
    by_cases plain : own.kind = .plain
    · -- What is declared plain takes the kind of its base.
      simp only [plain, ne_eq, not_true_eq_false, decide_false]
      by_cases last : bases = []
      · rw [last]
        exact plain
      · rw [ofLineage_cons own last, ← ih last]
        exact if_pos plain
    · simp only [plain, ne_eq, not_false_eq_true, decide_true]
      by_cases last : bases = []
      · rw [last]
        rfl
      · rw [ofLineage_cons own last]
        exact if_neg plain

/-- **The type of a sound lineage follows it.** -/
theorem follows_ofLineage (sound : lineage.Sound) : (ofLineage lineage).Follows lineage where
  head := by
    cases lineage with
    | nil => exact absurd rfl sound.nonempty
    | cons own bases => exact ⟨own, bases, rfl, (name_ofLineage own bases).symm⟩
  distinct := nodup_ofLineage sound.nonempty sound.own
  property? := property?_ofLineage sound.nonempty
  isAssignableTo := isAssignableTo_ofLineage sound.nonempty sound.own
  kind := kind_ofLineage sound.nonempty
  content := content_ofLineage sound.nonempty
  declared := sound.content
  target := by
    intro fault failed
    unfold contentTarget at failed
    cases content : (ofLineage lineage).contentProperty with
    | none => rfl
    | some name =>
      obtain ⟨p, declares⟩ := Option.isSome_iff_exists.1 (sound.content name content)
      rw [content] at failed
      dsimp only at failed
      rw [declares] at failed
      cases failed

end Lineage

end TypeDescriptor

/-! ## What a configuration declares -/

namespace TypeConfig

open TypeDescriptor

variable {t : TypeConfig} {r : Registry} {d : TypeDescriptor}

/-- What a declared type says itself is under its name and is derived from nothing. -/
theorem declared_of_own (own : t.own = .ok d) : d.Declared ∧ d.name = ⟨t.namespaceUri, t.name⟩ := by
  unfold TypeConfig.own at own
  obtain ⟨kind, -, own⟩ := ok_of_bind own
  obtain ⟨withProperties, properties, own⟩ := ok_of_bind own
  obtain ⟨withAttached, attached, own⟩ := ok_of_bind own
  have start : withProperties.Declared ∧ withProperties.name = ⟨t.namespaceUri, t.name⟩ := by
    refine foldlM_keeps (P := fun d => d.Declared ∧ d.name = ⟨t.namespaceUri, t.name⟩) properties
      ⟨⟨List.nodup_nil, rfl⟩, rfl⟩ ?_
    rintro ⟨name, text⟩ - before after ⟨declared, named⟩ added
    obtain ⟨type, -, added⟩ := ok_of_bind added
    cases added
    exact ⟨⟨nodup_declare declared.distinct name type, declared.ancestry⟩, named⟩
  have more : withAttached.Declared ∧ withAttached.name = ⟨t.namespaceUri, t.name⟩ := by
    refine foldlM_keeps (P := fun d => d.Declared ∧ d.name = ⟨t.namespaceUri, t.name⟩) attached
      start ?_
    rintro ⟨name, text⟩ - before after ⟨declared, named⟩ added
    obtain ⟨type, -, added⟩ := ok_of_bind added
    cases added
    exact ⟨⟨declared.distinct, declared.ancestry⟩, named⟩
  cases own
  cases t.contentProperty with
  | none => exact more
  | some content => exact ⟨⟨more.1.distinct, more.1.ancestry⟩, more.2⟩

/-- A declared type is what it says itself, derived from its base, and its content property is one
of its properties. -/
theorem own_of_descriptor (registered : t.descriptor r = .ok d) :
    ∃ own, t.own = .ok own ∧ t.derive r own = .ok d ∧
      ∀ name, d.contentProperty = some name → (d.property? name).isSome := by
  unfold descriptor at registered
  obtain ⟨own, declares, registered⟩ := ok_of_bind registered
  obtain ⟨derived, derives, registered⟩ := ok_of_bind registered
  unfold checkContent at registered
  split at registered
  · rename_i none
    cases registered
    exact ⟨own, declares, derives, fun name content => by rw [none] at content; cases content⟩
  · rename_i content is
    split at registered
    · rename_i there
      cases registered
      refine ⟨own, declares, derives, fun name content => ?_⟩
      rw [is] at content
      exact Option.some.inj content ▸ there
    · cases registered

end TypeConfig

/-! ## Ledgers -/

/-- The lineages of the types of a registry, under their canonical names. -/
structure Ledger where
  lineages : Table QName Lineage

namespace Ledger

open TypeDescriptor

/-- No lineages. -/
def empty : Ledger := ⟨.empty⟩

/-- The lineage of the type of a name. -/
def get? (l : Ledger) (name : QName) : Option Lineage := l.lineages.get? name.canonical

/-- The ledger with a lineage, which replaces that of a type of the same name. -/
def record (l : Ledger) (lineage : Lineage) : Ledger :=
  ⟨l.lineages.insert (ofLineage lineage).name.canonical lineage⟩

/-- The lineage that the base of a declared type has at the moment, if it is declared with one. -/
def bases (l : Ledger) (t : TypeConfig) : Lineage :=
  match t.base with
  | none => []
  | some base =>
    ((l.get? ⟨t.namespaceUri, base⟩).or (l.get? ⟨formsNamespace, base⟩)).getD []

/-- Records the lineages of the declared types that a registry takes up. -/
def recordAll (l : Ledger) (r : Registry) : List TypeConfig → Ledger
  | [] => l
  | t :: others =>
    match t.own, t.descriptor r with
    | .ok own, .ok d => (l.record (own :: l.bases t)).recordAll (r.register d) others
    | _, _ => l

/-- Records the lineages of the types that a configuration registers in a registry. -/
def apply (l : Ledger) (c : Config) (r : Registry) : Ledger := l.recordAll r c.types

/-- Records the lineages of the types that configurations register one after the other. -/
def applyAll (l : Ledger) (r : Registry) : List Config → Ledger
  | [] => l
  | c :: others => (l.apply c r).applyAll (c.apply r).2 others

/-- The lineages of the controls, in the order they are registered. -/
def ofControls : List Lineage :=
  let visualElement := [Controls.visualElement.own, Controls.element]
  let view := Controls.view.own :: visualElement
  let page := Controls.page.own :: visualElement
  let derived := [visualElement, view, page, Controls.contentPage.own :: page,
    Controls.contentView.own :: view, Controls.stackLayout.own :: view, Controls.grid.own :: view,
    Controls.label.own :: view, Controls.button.own :: view, Controls.entry.own :: view,
    Controls.image.own :: view, Controls.listView.own :: view]
  let alone := [Controls.viewCell, Controls.resourceDictionary, Controls.dataTemplate,
    Controls.controlTemplate, Controls.setter, Controls.style, Controls.color]
  [Controls.element] :: derived ++ alone.map ([·])

/-- The ledger of the controls. -/
def controls : Ledger := ofControls.foldl record empty

/-- A ledger has the lineages of exactly the types that a registry knows. -/
structure Agrees (l : Ledger) (r : Registry) : Prop where
  type : ∀ name, r.get? name = (l.get? name).map ofLineage
  sound : ∀ name lineage, l.get? name = some lineage → lineage.Sound

variable {l : Ledger} {r : Registry}

/-- Registering a type and recording its lineage go together. -/
theorem Agrees.record (agrees : l.Agrees r) {lineage : Lineage} (sound : lineage.Sound) :
    (l.record lineage).Agrees (r.register (ofLineage lineage)) := by
  constructor
  · intro name
    by_cases same : name.canonical = (ofLineage lineage).name.canonical
    · unfold Registry.get? Registry.register get? Ledger.record
      rw [same, Table.get?_insert_self, Table.get?_insert_self]
      rfl
    · have kept := agrees.type name
      unfold Registry.get? get? at kept
      unfold Registry.get? Registry.register get? Ledger.record
      rw [Table.get?_insert_of_ne _ _ same, Table.get?_insert_of_ne _ _ same, kept]
  · intro name other found
    rcases Table.get?_insert found with ⟨-, rfl⟩ | before
    · exact sound
    · refine agrees.sound name.canonical other ?_
      unfold get?
      rw [QName.canonical_idem]
      exact before

/-- **The step.** The type that a declared type becomes is that of its own declaration in front of
the lineage of its base. -/
theorem Agrees.ofLineage_bases (agrees : l.Agrees r) {t : TypeConfig} {own d : TypeDescriptor}
    (declares : t.own = .ok own) (registered : t.descriptor r = .ok d) :
    ofLineage (own :: l.bases t) = d ∧ Lineage.Sound (own :: l.bases t) := by
  obtain ⟨other, declares', derives, content⟩ := TypeConfig.own_of_descriptor registered
  obtain rfl : own = other := Except.ok.inj (declares.symm.trans declares')
  have ownDeclared := (TypeConfig.declared_of_own declares).1
  -- Whatever the base, it has a lineage if it is found.
  obtain ⟨is, declared⟩ : ofLineage (own :: l.bases t) = d ∧ ∀ base ∈ l.bases t, base.Declared := by
    unfold TypeConfig.derive at derives
    unfold bases
    cases named : t.base with
    | none =>
      rw [named] at derives
      cases derives
      exact ⟨rfl, nofun⟩
    | some base =>
      rw [named] at derives
      dsimp only at derives ⊢
      have found : t.findBase r base = ((l.get? ⟨t.namespaceUri, base⟩).or
          (l.get? ⟨formsNamespace, base⟩)).map ofLineage := by
        unfold TypeConfig.findBase
        rw [agrees.type, agrees.type]
        cases l.get? ⟨t.namespaceUri, base⟩ <;> rfl
      rw [found] at derives
      cases looked : (l.get? ⟨t.namespaceUri, base⟩).or (l.get? ⟨formsNamespace, base⟩) with
      | none => rw [looked] at derives; cases derives
      | some lineage =>
        rw [looked] at derives
        cases derives
        have sound : lineage.Sound := by
          rcases Option.or_eq_some_iff.1 looked with there | ⟨-, there⟩
          · exact agrees.sound _ _ there
          · exact agrees.sound _ _ there
        exact ⟨ofLineage_cons own sound.nonempty, sound.own⟩
  refine ⟨is, List.cons_ne_nil _ _, List.forall_mem_cons.2 ⟨ownDeclared, declared⟩, ?_⟩
  rw [is]
  exact content

/-- **The run.** A registry that takes up declared types until one fails agrees with the ledger that
records their lineages. -/
theorem Agrees.recordAll (types : List TypeConfig) : ∀ {l : Ledger} {r : Registry}, l.Agrees r →
    (l.recordAll r types).Agrees (Config.registerAll r types).2 := by
  induction types with
  | nil => exact fun agrees => agrees
  | cons t others ih =>
    intro l r agrees
    unfold Ledger.recordAll Config.registerAll
    cases registered : t.descriptor r with
    | error fault =>
      cases t.own <;> exact agrees
    | ok d =>
      obtain ⟨own, declares, -⟩ := TypeConfig.own_of_descriptor registered
      obtain ⟨is, sound⟩ := agrees.ofLineage_bases declares registered
      have next := agrees.record sound
      rw [is] at next
      rw [declares]
      exact ih next

theorem Agrees.applyAll (configs : List Config) : ∀ {l : Ledger} {r : Registry}, l.Agrees r →
    (l.applyAll r configs).Agrees (configs.foldl (fun r c => (c.apply r).2) r) := by
  induction configs with
  | nil => exact fun agrees => agrees
  | cons c others ih => exact fun agrees => ih (agrees.recordAll c.types)

theorem agrees_controls : controls.Agrees .controls := by
  have all : ∀ (lineages : List Lineage), (∀ lineage ∈ lineages, lineage.Sound) →
      ∀ {l : Ledger} {r : Registry}, l.Agrees r →
        (lineages.foldl Ledger.record l).Agrees ((lineages.map ofLineage).foldl .register r) := by
    intro lineages
    induction lineages with
    | nil => exact fun _ _ _ agrees => agrees
    | cons lineage others ih =>
      intro sound l r agrees
      exact ih (fun other mem => sound other (List.mem_cons_of_mem _ mem))
        (agrees.record (sound lineage List.mem_cons_self))
  have types : ofControls.map ofLineage = Controls.all := rfl
  have sound : ∀ lineage ∈ ofControls, lineage.Sound := by
    have own : ∀ lineage ∈ ofControls, lineage ≠ [] ∧ ∀ own ∈ lineage,
        (own.properties.map (·.name)).Nodup ∧ own.ancestry = [] := by decide +kernel
    have content : ∀ lineage ∈ ofControls, (ofLineage lineage).contentProperty.all
        fun name => ((ofLineage lineage).property? name).isSome := by decide +kernel
    intro lineage mem
    refine ⟨(own lineage mem).1, fun d listed => ?_, fun name is => ?_⟩
    · obtain ⟨distinct, ancestry⟩ := (own lineage mem).2 d listed
      exact ⟨distinct, ancestry⟩
    · have declared := content lineage mem
      rw [is] at declared
      exact declared
  have start : empty.Agrees .empty := ⟨fun name => rfl, nofun⟩
  have agrees := all ofControls sound start
  rw [types] at agrees
  exact agrees

end Ledger

/-- **Configured types follow their base chain.** Whatever configurations have been applied to the
standard controls, and wherever each of them stopped, every type that is known then follows its
lineage: its own declaration, and those that its base had when it was registered. -/
theorem Registry.configured_follow (configs : List Config) (name : QName) (d : TypeDescriptor)
    (known : (configs.foldl (fun r c => (c.apply r).2) controls).get? name = some d) :
    ∃ lineage, (Ledger.controls.applyAll controls configs).get? name = some lineage ∧
      d.Follows lineage := by
  have agrees := Ledger.agrees_controls.applyAll configs
  rw [agrees.type] at known
  obtain ⟨lineage, recorded, rfl⟩ := Option.map_eq_some_iff.1 known
  exact ⟨lineage, recorded, TypeDescriptor.follows_ofLineage (agrees.sound name lineage recorded)⟩

/-- A declared type with one property. -/
def TypeConfig.withOne (name : String) (base : Option String) (property type : String) :
    TypeConfig :=
  ⟨"urn:cards", name, base, ⟨[(property, type)]⟩, .empty, none, "plain"⟩

/-- A card is derived from a base that is registered anew later, with another property, before a
type without a base ends the configuration. The card keeps what its base was. -/
theorem Registry.configured_follow_card :
    let configs : List Config := [
      ⟨false, [.withOne "Base" (some "View") "Old" "string",
        .withOne "Card" (some "Base") "Face" "int"]⟩,
      ⟨false, [.withOne "Base" none "New" "string",
        .withOne "Lost" (some "Nobody") "Face" "int"]⟩]
    let card : QName := ⟨"urn:cards", "Card"⟩
    let base : QName := ⟨"urn:cards", "Base"⟩
    let registry := configs.foldl (fun r c => (c.apply r).2) controls
    ∃ d lineage, registry.get? card = some d ∧ d.Follows lineage ∧
      lineage.map (·.name.localName) = ["Card", "Base", "View", "VisualElement", "Element"] ∧
      d.property? "Old" = some ⟨"Old", .string⟩ ∧ d.property? "New" = none ∧
      (registry.get? base).map (·.ancestry) = some [] := by
  intro configs card base registry
  have known : (registry.get? card).isSome := by decide +kernel
  obtain ⟨d, known⟩ := Option.isSome_iff_exists.1 known
  obtain ⟨lineage, recorded, follows⟩ := configured_follow configs card d known
  have names : ((Ledger.controls.applyAll controls configs).get? card).map
      (·.map (·.name.localName)) = some ["Card", "Base", "View", "VisualElement", "Element"] := by
    decide +kernel
  have properties : (registry.get? card).map (fun d => (d.property? "Old", d.property? "New")) =
      some (some ⟨"Old", .string⟩, none) := by decide +kernel
  rw [recorded] at names
  rw [known] at properties
  obtain ⟨old, new⟩ := Prod.mk.inj (Option.some.inj properties)
  exact ⟨d, lineage, known, follows, Option.some.inj names, old, new, by decide +kernel⟩

end MarkupLoader
