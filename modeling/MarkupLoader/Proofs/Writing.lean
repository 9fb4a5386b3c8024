import MarkupLoader.Heap.Making
import MarkupLoader.Proofs.Conformance
import MarkupLoader.Proofs.Failing
import MarkupLoader.Schema.Controls

/-!
# What is made and assigned conforms

The writes to declared properties that a load consists of, one by one.

* **What is made** (`admits_of_make`) is admitted by the heap: arguments are coerced, and the
  built-in factories give numbers.
* **What is assigned** (`Sound.assign`) goes to a property that the type of the object declares
  with the type of the target, or to one that it does not declare (`Target.Agrees`).

Main results: `admits_of_make`, `Sound.assign`, `Sound.assignAll`.
-/

namespace MarkupLoader

/-- The only factories of a type are the built-in ones, and its channels are those of a colour. -/
def TypeDescriptor.FactoriesBuiltIn (d : TypeDescriptor) : Prop :=
  ∀ name make, d.factories.get? name = some make →
    (make = Color.fromHex ∨ make = Color.fromRgba) ∧
      ∀ channel ∈ ["R", "G", "B", "A"], d.property? channel = Controls.color.property? channel

/-! ## Making objects -/

section Making

variable {h : Heap} {d : TypeDescriptor}

/-- An object with properties and nothing else. -/
theorem admits_ofList {entries : List (String × Value)} (undotted : d.Undotted)
    (has : ∀ entry ∈ entries, h.Has entry.2)
    (conforms : ∀ entry ∈ entries, ∀ p, d.property? entry.1 = some p →
      h.Conforms p.type entry.2) :
    h.Admits { Object.ofType d with properties := .ofList entries } where
  typed name p value declared held :=
    conforms (name, value) (Table.mem_of_get?_ofList held) p declared
  undotted := undotted
  properties name value held := has (name, value) (Table.mem_of_get?_ofList held)
  items value mem := by cases mem
  entries key value held := by cases held
  templates content kept := by cases kept

theorem admits_ofType (undotted : d.Undotted) : h.Admits (Object.ofType d) := by
  show h.Admits { Object.ofType d with properties := .ofList [] }
  exact admits_ofList undotted nofun nofun

/-- An argument goes to a property as a value that conforms. -/
theorem conforms_of_coerceArgument {parameter : String} {argument : Value}
    {entry : String × Value} (coerced : d.coerceArgument h parameter argument = .ok entry)
    (has : h.Has argument) :
    h.Has entry.2 ∧ ∀ p, d.property? entry.1 = some p → h.Conforms p.type entry.2 := by
  unfold TypeDescriptor.coerceArgument at coerced
  split at coerced
  case h_1 unknown =>
    cases coerced
    refine ⟨has, fun p declared => ?_⟩
    rw [unknown] at declared
    cases declared
  case h_2 p known =>
    split at coerced
    · cases coerced
      rename_i fits
      obtain ⟨conforms, has⟩ := Heap.conforms_of_coerce fits has
      refine ⟨has, fun q declared => ?_⟩
      obtain rfl : p = q := Option.some.inj (known.symm.trans declared)
      exact conforms
    · cases coerced

/-- What the built-in factories give are the channels of a colour. -/
theorem channels_of_factory {make : Factory} (builtIn : make = Color.fromHex ∨ make = Color.fromRgba)
    {kindName : Value → String} {arguments : List Value} {entries : List (String × Value)}
    (made : make kindName arguments = .ok entries) :
    ∃ red green blue alpha, entries = Color.properties red green blue alpha := by
  rcases builtIn with rfl | rfl
  · unfold Color.fromHex at made
    split at made
    · dsimp only at made
      split at made
      · cases made
        rename_i hex
        unfold Color.ofHex? at hex
        split at hex <;> cases hex
        · exact ⟨_, _, _, _, rfl⟩
        · exact ⟨_, _, _, _, rfl⟩
      · cases made
    · cases made
  · unfold Color.fromRgba at made
    obtain ⟨numbers, -, made⟩ := ok_of_bind made
    split at made
    · cases made
      exact ⟨_, _, _, _, rfl⟩
    · cases made

/-- A number conforms wherever a colour has a channel. -/
theorem conforms_channel {channel : String} (mem : channel ∈ ["R", "G", "B", "A"]) {p : Property}
    (declared : Controls.color.property? channel = some p) (x : Float) :
    h.Conforms p.type (.float x) := by
  have number : ∀ channel ∈ ["R", "G", "B", "A"],
      Controls.color.property? channel = some ⟨channel, .float⟩ := by decide
  rw [number channel mem] at declared
  cases declared
  exact .float x

/-- What is made of a type may be added to the heap. -/
theorem admits_of_make {arguments : List Value} {factory : Option String} {o : Object}
    (undotted : d.Undotted) (builtIn : d.FactoriesBuiltIn) (has : ∀ v ∈ arguments, h.Has v)
    (made : d.make h arguments factory = .ok o) : h.Admits o := by
  unfold TypeDescriptor.make at made
  split at made
  case h_1 name =>
    split at made
    · cases made
    case h_2 make found =>
      obtain ⟨known, channels⟩ := builtIn name make found
      split at made
      · cases made
      case h_2 entries given =>
        cases made
        obtain ⟨red, green, blue, alpha, rfl⟩ := channels_of_factory known given
        have number : ∀ entry ∈ Color.properties red green blue alpha,
            entry.1 ∈ ["R", "G", "B", "A"] ∧ ∃ x, entry.2 = .float x := by
          simp [Color.properties]
        refine admits_ofList undotted (fun entry mem => ?_) fun entry mem p declared => ?_
        · obtain ⟨-, x, value⟩ := number entry mem
          exact Heap.has_of_references (by rw [value]; rfl)
        · obtain ⟨channel, x, value⟩ := number entry mem
          rw [channels _ channel] at declared
          rw [value]
          exact conforms_channel channel declared x
  · split at made
    · cases made
      exact admits_ofType undotted
    · split at made
      · cases made
      · obtain ⟨entries, coerced, made⟩ := ok_of_bind made
        cases made
        have each : ∀ entry ∈ entries, h.Has entry.2 ∧
            ∀ p, d.property? entry.1 = some p → h.Conforms p.type entry.2 := by
          intro entry mem
          obtain ⟨⟨parameter, argument⟩, given, coerced⟩ := exists_of_mapM coerced mem
          exact conforms_of_coerceArgument coerced (has argument (List.of_mem_zip given).2)
        exact admits_ofList undotted (fun entry mem => (each entry mem).1)
          fun entry mem => (each entry mem).2

end Making

/-! ## Assigning -/

section Assigning

variable {h after : Heap} {d : TypeDescriptor} {id : ObjectId} {target : Target} {value : Value}

/-- A type that declares the property of a target declares it with the type of the target. -/
def Target.Agrees (target : Target) (d : TypeDescriptor) : Prop :=
  ∀ p, d.property? target.key = some p → p.type = target.type

theorem agrees_target {name : String} {p : Property} (declared : d.property? name = some p) :
    p.target.Agrees d := by
  intro q found
  have same : p.name = name := by simpa using List.find?_some declared
  rw [Property.target, same, declared] at found
  rw [← Option.some.inj found]
  rfl

theorem agrees_of_contentTarget (given : d.contentTarget = .ok target) : target.Agrees d := by
  unfold TypeDescriptor.contentTarget at given
  split at given
  · cases given
  · split at given
    · cases given
    · cases given
      exact agrees_target ‹_›

/-- A property that another type declares has a dot in its key, so no type declares it itself. -/
theorem agrees_of_attachedTarget {s : Site} {namespaceUri owner property : String}
    (undotted : d.Undotted) (given : s.attachedTarget namespaceUri owner property = .ok target) :
    target.Agrees d := by
  unfold Site.attachedTarget at given
  dsimp only at given
  split at given
  · cases given
  · split at given
    · cases given
    · cases given
      intro q found
      have same : q.name = owner ++ "." ++ property := by simpa using List.find?_some found
      have dotted : '.' ∈ q.name.toList := by simp [same]
      exact absurd dotted (undotted q (List.mem_of_find?_eq_some found))

theorem agrees_of_target {s : Site} {name : QName} (undotted : d.Undotted)
    (given : s.target d name = .ok target) : target.Agrees d := by
  unfold Site.target at given
  split at given
  · split at given
    · cases given
      exact agrees_target ‹_›
    · cases given
  · dsimp only at given
    split at given
    case h_1 p own =>
      cases given
      split at own
      · exact agrees_target own
      · cases own
    · exact agrees_of_attachedTarget undotted given

/-- An assignment gives the property a value that conforms, or adds to the collection there. -/
theorem Heap.Sound.assign (sound : h.Sound) (has : h.Has value)
    (agrees : target.Agrees (h.descriptor id)) (assigned : h.assign id target value = .ok after) :
    after.Sound ∧ h.Grows after := by
  unfold Heap.assign at assigned
  split at assigned
  case isTrue collects =>
    have conforms : ∀ {v}, h.Conforms .collection v →
        ∀ p, (h.descriptor id).property? target.key = some p → h.Conforms p.type v := by
      intro v fits p declared
      rwa [agrees p declared, collects]
    split at assigned
    · cases assigned
      exact ⟨sound.set has (conforms (.list _)), h.grows_set _ _ _⟩
    · split at assigned
      case isTrue is =>
        cases assigned
        have fits : h.Conforms .collection value := by
          cases value <;> simp only [Heap.isOfKind, decide_eq_true_eq] at is
          · exact absurd is (by decide)
          all_goals first | exact absurd is (by decide) | exact .collection is
        exact ⟨sound.set has (conforms fits), h.grows_set _ _ _⟩
      · exact sound.append has (fun p declared => (agrees p declared).trans collects)
          (ok_of_mapError assigned)
  · split at assigned
    case h_1 coerced fits =>
      cases assigned
      obtain ⟨conforms, has⟩ := Heap.conforms_of_coerce fits has
      refine ⟨sound.set has fun p declared => ?_, h.grows_set _ _ _⟩
      rwa [agrees p declared]
    · cases assigned

/-- The values of a property element are assigned one after the other. -/
theorem Heap.Sound.assignAll {values : List Value} (sound : h.Sound) (has : ∀ v ∈ values, h.Has v)
    (agrees : target.Agrees (h.descriptor id)) (inside : id < h.size)
    (assigned : h.assignAll id target values = .ok after) : after.Sound ∧ h.Grows after := by
  unfold Heap.assignAll at assigned
  split at assigned
  · cases assigned
    exact ⟨sound, .refl h⟩
  · split at assigned
    · refine foldlM_keeps (P := fun heap => heap.Sound ∧ h.Grows heap) assigned
        ⟨sound, .refl h⟩ fun v mem before next holds step => ?_
      obtain ⟨sound, grows⟩ := holds
      have agrees' : target.Agrees (before.descriptor id) := by
        rwa [grows.descriptor id inside]
      obtain ⟨sound', grows'⟩ := sound.assign ((has v mem).grows grows) agrees' step
      exact ⟨sound', grows.trans grows'⟩
    · split at assigned
      · cases assigned
        exact ⟨sound, .refl h⟩
      · exact sound.assign (has _ List.mem_cons_self) agrees assigned
      · cases assigned

end Assigning

end MarkupLoader
