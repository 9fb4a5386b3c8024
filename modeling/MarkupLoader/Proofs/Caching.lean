import MarkupLoader.Bundle.Resolver

/-!
# The cache of resources

The markup of components is asked for again and again with one cache between the calls. A
remembered resource is read with a weaker test than the search makes, and its entry is kept under
the names of bundle and class only, so that it has to be shown that nobody can tell.

* **Bundles agree** (`Bundle.Agrees`) if they list the same ids in the same order, and read the
  same contents and file names under each id.
* **A call** (`Resolver.Call`) asks one resolver for one component. Its text without a memory
  (`Call.text?`) is what it gives on an empty cache, and the resource that it finds
  (`Call.found?`) is the one that the search ends at, unless the provider gives a text.
* **A faithful cache** (`Faithful`) holds for each call under its key, if anything, the resource
  that the search of the call ends at. This is what the calls keep.

Main statement: `resolveAll_transparent`.
-/

namespace MarkupLoader

/-! ## Searching -/

/-- Two bundles that no reader can tell apart. -/
structure Bundle.Agrees (a b : Bundle) : Prop where
  ids : a.ids = b.ids
  read? : ∀ id, a.read? id = b.read? id
  fileName : ∀ id, a.fileName id = b.fileName id

namespace Component

variable {c d : Component}

/-- A text that passes the stronger test passes the weaker one. -/
theorem readMarkup?_of_sniffed {id text : String} (reads : c.readMarkup? true id = some text) :
    c.readMarkup? false id = some text := by
  simp only [readMarkup?, Option.bind_eq_bind, Option.bind_eq_some_iff] at reads ⊢
  obtain ⟨content, read, decoded, decodes, passes⟩ := reads
  refine ⟨content, read, decoded, decodes, ?_⟩
  split at passes
  · cases passes
  · exact passes

/-- The first markup among some resources can be read again. -/
theorem readMarkup?_of_firstMarkup? {sniffed : Bool} {ids : List String} {id text : String}
    (first : c.firstMarkup? sniffed ids = some (id, text)) :
    c.readMarkup? sniffed id = some text := by
  obtain ⟨other, -, reads⟩ := List.exists_of_findSome?_eq_some first
  obtain ⟨found, reads, same⟩ := Option.map_eq_some_iff.1 reads
  cases same
  exact reads

/-- The resource that the search ends at passes the weaker test, whichever tier it is of. -/
theorem readMarkup?_of_search? {id text : String} (found : c.search? = some (id, text)) :
    c.readMarkup? false id = some text := by
  simp only [search?, Option.or_eq_some_iff] at found
  obtain likely | ⟨-, suffixed | ⟨-, other⟩⟩ := found
  · exact readMarkup?_of_firstMarkup? likely
  · exact readMarkup?_of_firstMarkup? suffixed
  · exact readMarkup?_of_sniffed (readMarkup?_of_firstMarkup? other)

/-- One class is searched for alike in bundles that agree. -/
theorem search?_congr (name : c.fullName = d.fullName) (agree : c.bundle.Agrees d.bundle) :
    c.search? = d.search? := by
  have likely : c.isLikely = d.isLikely := by
    funext id
    simp only [isLikely, likelyFileName, Component.name, name, agree.fileName]
  have reads : c.readMarkup? = d.readMarkup? := by
    funext sniffed id
    simp only [readMarkup?, name, agree.read?]
  have first : c.firstMarkup? = d.firstMarkup? := by
    funext sniffed ids
    simp only [firstMarkup?, reads]
  simp only [search?, agree.ids, likely, first]

end Component

namespace Resolver

/-! ## Calls -/

/-- A question for the markup of a component. -/
structure Call where
  resolver : Resolver
  component : Component

namespace Call

/-- The text that the call gives on an empty cache. -/
def text? (call : Call) : Option String := (call.resolver.resolve .empty call.component).1

/-- The id of the resource that the call finds in the bundle. Nothing is looked for where the
provider gives a text. -/
def found? (call : Call) : Option String :=
  if (call.resolver.provided? call.component).isSome then none
  else call.component.search?.map Prod.fst

end Call

/-- The texts that calls give one after the other, and the cache that they leave. -/
def resolveAll (cache : ResourceCache) : List Call → List (Option String) × ResourceCache
  | [] => ([], cache)
  | call :: rest =>
    let (text, cache) := call.resolver.resolve cache call.component
    let (texts, cache) := resolveAll cache rest
    (text :: texts, cache)

/-- Calls on bundles of one name are on bundles that agree. -/
def Consistent (calls : List Call) : Prop :=
  ∀ a ∈ calls, ∀ b ∈ calls, a.component.bundle.name = b.component.bundle.name →
    a.component.bundle.Agrees b.component.bundle

/-- What a cache holds under the key of a component is where the search for it ends. -/
def Faithful (cache : ResourceCache) (calls : List Call) : Prop :=
  ∀ call ∈ calls, ∀ id, cache.entryFor? call.component = some id →
    call.component.search?.map Prod.fst = some id

variable {calls : List Call} {call other : Call} {cache : ResourceCache}

/-- Calls with one key end their searches alike. -/
theorem Consistent.search? (consistent : Consistent calls) (mem : call ∈ calls)
    (also : other ∈ calls) (same : ResourceCache.key call.component =
      ResourceCache.key other.component) :
    call.component.search? = other.component.search? := by
  obtain ⟨bundle, name⟩ := Prod.mk.inj same
  exact Component.search?_congr name (consistent call mem other also bundle)

/-- On an empty cache a call gives what the provider gives, or else what the search ends at. -/
theorem text?_eq (call : Call) :
    call.text? = (call.resolver.provided? call.component).or
      (call.component.search?.map Prod.snd) := by
  have forgotten : remembered? .empty call.component = none := rfl
  simp only [Call.text?, resolve, forgotten, Option.or_none]
  cases call.resolver.provided? call.component with
  | some text => rfl
  | none => cases call.component.search? <;> rfl

/-- A faithful cache remembers, if anything, the text that the search ends at. -/
theorem remembered?_of_faithful (faithful : Faithful cache calls) (mem : call ∈ calls)
    {text : String} (hit : remembered? cache call.component = some text) :
    ∃ id, cache.entryFor? call.component = some id ∧
      call.component.search? = some (id, text) := by
  obtain ⟨id, entry, reads⟩ := Option.bind_eq_some_iff.1 hit
  obtain ⟨⟨_, found⟩, search, rfl⟩ := Option.map_eq_some_iff.1 (faithful call mem id entry)
  have again := Component.readMarkup?_of_search? search
  rw [reads] at again
  cases again
  exact ⟨_, entry, search⟩

/-- One call on a faithful cache gives its text, and the cache afterwards holds what it held
before and what the call has found. -/
theorem resolve_of_faithful (faithful : Faithful cache calls) (mem : call ∈ calls) :
    (call.resolver.resolve cache call.component).1 = call.text? ∧
      ∀ key id, Table.get? (call.resolver.resolve cache call.component).2 key = some id ↔
        Table.get? cache key = some id ∨
          ResourceCache.key call.component = key ∧ call.found? = some id := by
  rw [text?_eq]
  cases provided : call.resolver.provided? call.component with
  | some text => simp [resolve, Call.found?, provided]
  | none =>
    cases hit : remembered? cache call.component with
    | some text =>
      obtain ⟨found, entry, search⟩ := remembered?_of_faithful faithful mem hit
      refine ⟨by simp [resolve, provided, hit, search], fun key id => ?_⟩
      -- The search would have found what is remembered already.
      have already : ResourceCache.key call.component = key ∧ call.found? = some id →
          Table.get? cache key = some id := by
        rintro ⟨rfl, searched⟩
        simp only [Call.found?, provided, search] at searched
        cases searched
        exact entry
      simpa [resolve, provided, hit] using already
    | none =>
      cases search : call.component.search? with
      | none => simp [resolve, Call.found?, provided, hit, search]
      | some found =>
        obtain ⟨found, text⟩ := found
        refine ⟨by simp [resolve, provided, hit, search], fun key id => ?_⟩
        have now : call.found? = some found := by simp [Call.found?, provided, search]
        simp only [resolve, provided, hit, search, Option.or_none, now,
          ResourceCache.remember]
        by_cases same : key = ResourceCache.key call.component
        · subst same
          -- An entry that is replaced is replaced by itself.
          have kept : Table.get? cache (ResourceCache.key call.component) = some id →
              found = id := by
            intro entry
            have held := faithful call mem id entry
            rw [search] at held
            exact Option.some.inj held
          simpa using kept
        · rw [Table.get?_insert_of_ne _ _ same]
          simp [Ne.symm same]

/-- What a call leaves in a faithful cache is faithful. -/
theorem Faithful.resolve (consistent : Consistent calls) (faithful : Faithful cache calls)
    (mem : call ∈ calls) : Faithful (call.resolver.resolve cache call.component).2 calls := by
  intro other also id entry
  rcases ((resolve_of_faithful faithful mem).2 _ id).1 entry with before | ⟨same, found⟩
  · exact faithful other also id before
  · -- A new entry is what this call has found, and the other one has the same key.
    rw [← consistent.search? mem also same]
    unfold Call.found? at found
    split at found
    · cases found
    · exact found

/-- Calls on a faithful cache give their texts, and the cache afterwards holds what it held before
and what they have found. -/
theorem resolveAll_of_faithful (consistent : Consistent calls) (faithful : Faithful cache calls)
    (asked : List Call) (subset : asked ⊆ calls) :
    (resolveAll cache asked).1 = asked.map Call.text? ∧
      ∀ key id, Table.get? (resolveAll cache asked).2 key = some id ↔
        Table.get? cache key = some id ∨
          ∃ call ∈ asked, ResourceCache.key call.component = key ∧ call.found? = some id := by
  -- Along the calls; the cache that each one leaves is faithful for all of them, asked or not.
  induction asked generalizing cache with
  | nil => simp [resolveAll]
  | cons call rest ih =>
    obtain ⟨mem, subset⟩ := List.cons_subset.1 subset
    obtain ⟨text, entries⟩ := resolve_of_faithful faithful mem
    obtain ⟨texts, later⟩ := ih (faithful.resolve consistent mem) subset
    refine ⟨by simp only [resolveAll, text, texts, List.map_cons], fun key id => ?_⟩
    simp only [resolveAll, later, entries, or_assoc, List.mem_cons, exists_eq_or_imp]

/--
**The cache cannot be told from having none.** Calls that share a cache which is empty at first,
on bundles that agree where they have one name,

* give one after the other what each of them gives on an empty cache;
* leave exactly the resources that they have found in the bundles in the cache, each under the
  names of its bundle and class.
-/
theorem resolveAll_transparent (consistent : Consistent calls) :
    (resolveAll .empty calls).1 = calls.map Call.text? ∧
      ∀ key id, Table.get? (resolveAll .empty calls).2 key = some id ↔
        ∃ call ∈ calls, ResourceCache.key call.component = key ∧ call.found? = some id := by
  have faithful : Faithful .empty calls := nofun
  simpa [Table.get?, Table.empty, Table.find?] using
    resolveAll_of_faithful consistent faithful calls (List.Subset.refl _)

/-- A class is asked for before and after it has been found, and in between where a provider
answers for it. -/
theorem resolveAll_transparent_page :
    let page : Component :=
      ⟨"Demo.Page", "app", [⟨"app.Page.xaml", none, "<Page x:Class=\"Demo.Page\"/>".toUTF8⟩], false⟩
    let found : Call := ⟨⟨none⟩, page⟩
    let provided : Call := ⟨⟨some fun c => some c.text⟩, page⟩
    let calls := [found, provided, found]
    Consistent calls ∧ found.found? = some "app.Page.xaml" ∧
      (resolveAll .empty calls).1 = calls.map Call.text? ∧
      ∀ key id, Table.get? (resolveAll .empty calls).2 key = some id ↔
        ∃ call ∈ calls, ResourceCache.key call.component = key ∧ call.found? = some id := by
  intro page found provided calls
  have only : ∀ call ∈ calls, call.component = page := by simp [calls, found, provided]
  have consistent : Consistent calls := by
    intro a mem b also _
    rw [only a mem, only b also]
    exact ⟨rfl, fun _ => rfl, fun _ => rfl⟩
  exact ⟨consistent, by decide +kernel, resolveAll_transparent consistent⟩

end Resolver

end MarkupLoader
