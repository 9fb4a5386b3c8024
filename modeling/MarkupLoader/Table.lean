/-!
# Tables

A table maps keys to values and remembers the order in which keys came first. **Inserting under
a key that is there keeps its place** and replaces the value; a new key goes to the end.

Main statements: `get?_insert_self`, `get?_insert_of_ne`, `mem_of_get?_ofList`,
`keys_insert_of_mem`, `entries_insert_of_not_mem`.
-/

namespace MarkupLoader

/-- A map that keeps its keys in the order of their first insertion. -/
structure Table (κ α : Type) where
  entries : List (κ × α)
deriving Repr

namespace Table

variable {κ α β : Type} [DecidableEq κ]

/-- The table without entries. -/
def empty : Table κ α := ⟨[]⟩

instance : Inhabited (Table κ α) := ⟨empty⟩

/-- The keys in order. -/
def keys (t : Table κ α) : List κ := t.entries.map Prod.fst

/-- The values in the order of their keys. -/
def values (t : Table κ α) : List α := t.entries.map Prod.snd

/-- The number of entries. -/
def size (t : Table κ α) : Nat := t.entries.length

/-- The value of a key among entries. -/
def find? (key : κ) : List (κ × α) → Option α
  | [] => none
  | (k, value) :: rest => if k = key then some value else find? key rest

/-- The entries with a value put under a key. -/
def put (key : κ) (value : α) : List (κ × α) → List (κ × α)
  | [] => [(key, value)]
  | (k, old) :: rest => if k = key then (k, value) :: rest else (k, old) :: put key value rest

/-- The value of a key. -/
def get? (t : Table κ α) (key : κ) : Option α := find? key t.entries

/-- Whether a key has a value. -/
def contains (t : Table κ α) (key : κ) : Bool := (t.get? key).isSome

/-- The table with a value put under a key. -/
def insert (t : Table κ α) (key : κ) (value : α) : Table κ α := ⟨put key value t.entries⟩

/-- The table with the entries of a list put in one after the other. -/
def insertAll (t : Table κ α) (entries : List (κ × α)) : Table κ α :=
  entries.foldl (fun t (key, value) => t.insert key value) t

/-- The table of the entries of a list; of entries with one key the last value counts. -/
def ofList (entries : List (κ × α)) : Table κ α := empty.insertAll entries

/-! ## Laws -/

/-- What has been inserted is found. -/
@[simp]
theorem get?_insert_self (t : Table κ α) (key : κ) (value : α) :
    (t.insert key value).get? key = some value := by
  obtain ⟨entries⟩ := t
  simp only [insert, get?]
  induction entries with
  | nil => simp [put, find?]
  | cons entry rest ih => by_cases h : entry.1 = key <;> simp [put, find?, h, ih]

/-- Inserting is seen at no other key. -/
theorem get?_insert_of_ne (t : Table κ α) {key other : κ} (value : α) (h : other ≠ key) :
    (t.insert key value).get? other = t.get? other := by
  obtain ⟨entries⟩ := t
  simp only [insert, get?]
  induction entries with
  | nil => simp [put, find?, Ne.symm h]
  | cons entry rest ih =>
    by_cases hk : entry.1 = key
    · simp [put, find?, hk, Ne.symm h]
    · simp [put, find?, hk, ih]

/-- What is found after an insertion has been inserted or was there. -/
theorem get?_insert {t : Table κ α} {key other : κ} {value found : α}
    (h : (t.insert key value).get? other = some found) :
    other = key ∧ found = value ∨ t.get? other = some found := by
  by_cases same : other = key
  · rw [same, get?_insert_self] at h
    exact .inl ⟨same, (Option.some.inj h).symm⟩
  · rw [get?_insert_of_ne _ _ same] at h
    exact .inr h

/-- What is found in a table was one of the entries it was made of. -/
theorem mem_of_get?_ofList {entries : List (κ × α)} {key : κ} {found : α}
    (h : (ofList entries).get? key = some found) : (key, found) ∈ entries := by
  have origin : ∀ (entries : List (κ × α)) (t : Table κ α),
      (t.insertAll entries).get? key = some found →
        (key, found) ∈ entries ∨ t.get? key = some found := by
    intro entries
    induction entries with
    | nil => exact fun t h => .inr h
    | cons entry rest ih =>
      intro t h
      rcases ih _ h with mem | there
      · exact .inl (List.mem_cons_of_mem _ mem)
      · rcases get?_insert there with ⟨rfl, rfl⟩ | before
        · exact .inl List.mem_cons_self
        · exact .inr before
  exact (origin entries empty h).resolve_right nofun

/-- Nothing is found under a key that none of the entries has. -/
theorem get?_ofList_of_not_mem {entries : List (κ × α)} {key : κ}
    (absent : ∀ value, (key, value) ∉ entries) : (ofList entries).get? key = none := by
  cases found : (ofList entries).get? key with
  | none => rfl
  | some value => exact absurd (mem_of_get?_ofList found) (absent value)

/-- A key that is there keeps its place. -/
theorem keys_insert_of_mem (t : Table κ α) {key : κ} (value : α) (h : key ∈ t.keys) :
    (t.insert key value).keys = t.keys := by
  obtain ⟨entries⟩ := t
  simp only [insert, keys] at h ⊢
  induction entries with
  | nil => simp at h
  | cons entry rest ih =>
    by_cases hk : entry.1 = key
    · simp [put, hk]
    · rw [List.map_cons, List.mem_cons] at h
      have later := h.resolve_left (Ne.symm hk)
      simp [put, hk, ih later]

/-- A new key goes to the end. -/
theorem entries_insert_of_not_mem (t : Table κ α) {key : κ} (value : α) (h : key ∉ t.keys) :
    (t.insert key value).entries = t.entries ++ [(key, value)] := by
  obtain ⟨entries⟩ := t
  simp only [insert, keys] at h ⊢
  induction entries with
  | nil => simp [put]
  | cons entry rest ih =>
    rw [List.map_cons, List.mem_cons, not_or] at h
    simp [put, Ne.symm h.1, ih h.2]

theorem keys_insert_of_not_mem (t : Table κ α) {key : κ} (value : α) (h : key ∉ t.keys) :
    (t.insert key value).keys = t.keys ++ [key] := by
  rw [keys, entries_insert_of_not_mem t value h, List.map_append]
  rfl

/-- Entries with new keys, no two of them the same, all go to the end. -/
theorem entries_insertAll {entries : List (κ × α)} (distinct : (entries.map Prod.fst).Nodup) :
    ∀ {t : Table κ α}, (∀ entry ∈ entries, entry.1 ∉ t.keys) →
      (t.insertAll entries).entries = t.entries ++ entries := by
  induction entries with
  | nil => exact fun _ => (List.append_nil _).symm
  | cons entry rest ih =>
    intro t new
    obtain ⟨here, later⟩ := List.forall_mem_cons.1 new
    obtain ⟨apart, distinct⟩ := List.nodup_cons.1 distinct
    have inserted := t.entries_insert_of_not_mem entry.2 here
    have new' : ∀ other ∈ rest, other.1 ∉ (t.insert entry.1 entry.2).keys := by
      intro other mem
      rw [keys_insert_of_not_mem t entry.2 here, List.mem_append, List.mem_singleton, not_or]
      exact ⟨later other mem, fun same => apart (same ▸ List.mem_map_of_mem mem)⟩
    show ((t.insert entry.1 entry.2).insertAll rest).entries = _
    rw [ih distinct new', inserted, List.append_assoc]
    rfl

/-- Of entries with distinct keys all are kept. -/
theorem ofList_eq {entries : List (κ × α)} (distinct : (entries.map Prod.fst).Nodup) :
    ofList entries = ⟨entries⟩ := by
  have all := entries_insertAll distinct (t := empty) fun _ _ => List.not_mem_nil
  exact congrArg Table.mk all

end Table

end MarkupLoader
