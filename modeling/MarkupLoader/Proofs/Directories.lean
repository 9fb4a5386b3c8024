import MarkupLoader.Bundle.Basic
import Mathlib.Data.String.Basic
import Mathlib.Data.List.Nodup
import Mathlib.Data.List.Sort

/-!
# What the bundle of a directory keeps

The id of a file is the name of the bundle and the parts of the path, with dots between them. The
parts may have dots themselves, so an id does not tell where one part ends and the next begins: it
tells **the pieces of the path** (`File.pieces`), which are what its parts are cut into at their dots.

* **Two files have one id exactly if their paths have the same pieces** (`fileId_eq_iff`). So the
  file `c` of the directory `a.b` and the file `b.c` of the directory `a` come under one id, and
  only the one that is listed last stays.
* **A bundle has a file** (`Bundle.Holds`) if the file can be read under its id, with the name that
  it has. That is so of every file whose pieces no other file has, whatever becomes of the rest.
* **The order in which the files are listed does not count** for files with distinct pieces: the
  bundle has them sorted by their ids, of which no two are the same.

Main results: `fileId_eq_iff`, `Bundle.ofFiles_holds`, `Bundle.ofFiles_keeps`.
-/

namespace MarkupLoader

/-! ## Pieces of a path -/

namespace Text

variable {p : Char → Bool}

theorem pieces_ne_nil (s : List Char) : pieces p s ≠ [] := by
  fun_induction pieces p s <;> simp_all

/-- A separator ends a piece. What stands before it and what stands behind it are cut by themselves. -/
theorem pieces_append_cons {c : Char} (separates : p c = true) (s t : List Char) :
    pieces p (s ++ c :: t) = pieces p s ++ pieces p t := by
  induction s with
  | nil => simp [pieces, separates]
  | cons d s ih =>
    rw [List.cons_append, pieces, pieces]
    by_cases cut : p d = true
    · rw [if_pos cut, if_pos cut, ih, List.cons_append]
    · rw [if_neg cut, if_neg cut, ih]
      obtain ⟨first, others, eq⟩ := List.exists_cons_of_ne_nil (pieces_ne_nil (p := p) s)
      rw [eq]
      rfl

/-- The pieces with the separator between them again are the text. -/
theorem intercalate_pieces (c : Char) (s : List Char) : [c].intercalate (pieces (· == c) s) = s := by
  induction s with
  | nil => rfl
  | cons d s ih =>
    obtain ⟨first, others, eq⟩ := List.exists_cons_of_ne_nil (pieces_ne_nil (p := (· == c)) s)
    rw [pieces]
    by_cases cut : (d == c) = true
    · rw [if_pos cut, eq, List.intercalate_cons_cons, ← eq, ih, eq_of_beq cut]
      rfl
    · rw [if_neg cut, eq]
      rw [eq] at ih
      cases others with
      | nil => simpa using ih
      | cons second others =>
        rw [List.intercalate_cons_cons] at ih ⊢
        exact congrArg (d :: ·) ih

/-- No two texts have the same pieces. -/
theorem splitAt_injective (c : Char) : Function.Injective (splitAt c) := by
  intro s t same
  have same : pieces (· == c) s.toList = pieces (· == c) t.toList :=
    List.map_injective_iff.2 (fun _ _ => String.ofList_inj.1) same
  exact String.toList_inj.1 (by rw [← intercalate_pieces c s.toList, same, intercalate_pieces])

end Text

/-- The pieces of the path of a file: what its parts are cut into at their dots. -/
def File.pieces (f : File) : List String := f.path.flatMap (Text.splitAt '.')

namespace Bundle

/-- An id tells the pieces of the path. -/
theorem splitAt_fileId (name : String) (f : File) :
    Text.splitAt '.' (fileId name f) = Text.splitAt '.' name ++ f.pieces := by
  obtain ⟨path, -⟩ := f
  unfold fileId File.pieces
  induction path generalizing name with
  | nil => simp [Text.splitAt]
  | cons part path ih =>
    have longer : (".".intercalate (name :: part :: path)).toList =
        name.toList ++ '.' :: (".".intercalate (part :: path)).toList := by
      simp [String.toList_intercalate]
    rw [Text.splitAt, longer, Text.pieces_append_cons rfl, List.map_append, List.flatMap_cons,
      ← ih part]
    rfl

/-- **Two files have one id exactly if their paths have the same pieces.** -/
theorem fileId_eq_iff (name : String) (f g : File) :
    fileId name f = fileId name g ↔ f.pieces = g.pieces := by
  rw [← (Text.splitAt_injective '.').eq_iff, splitAt_fileId, splitAt_fileId, List.append_cancel_left_eq]

end Bundle

/-! ## Tables made of lists -/

namespace Table

variable {κ α : Type} [DecidableEq κ] {key : κ}

theorem nodup_keys_insert {t : Table κ α} (distinct : t.keys.Nodup) (key : κ) (value : α) :
    (t.insert key value).keys.Nodup := by
  by_cases there : key ∈ t.keys
  · rwa [keys_insert_of_mem t value there]
  · rw [keys_insert_of_not_mem t value there]
    rw [← List.concat_eq_append]
    exact distinct.concat there

theorem mem_keys_insert {t : Table κ α} {other : κ} {value : α} :
    other ∈ (t.insert key value).keys ↔ other ∈ t.keys ∨ other = key := by
  by_cases there : key ∈ t.keys
  · rw [keys_insert_of_mem t value there]
    exact ⟨.inl, fun h => h.elim id fun same => same ▸ there⟩
  · rw [keys_insert_of_not_mem t value there, List.mem_append, List.mem_singleton]

/-- Putting a value in brings no other entry. -/
theorem mem_entries_insert {t : Table κ α} {value : α} {entry : κ × α}
    (mem : entry ∈ (t.insert key value).entries) : entry = (key, value) ∨ entry ∈ t.entries := by
  obtain ⟨entries⟩ := t
  simp only [insert] at mem ⊢
  induction entries with
  | nil => exact .inl (List.mem_singleton.1 mem)
  | cons first rest ih =>
    rw [put] at mem
    split at mem
    · next same =>
      exact (List.mem_cons.1 mem).imp (fun eq => by rw [eq, same]) (List.mem_cons_of_mem _)
    · obtain rfl | mem := List.mem_cons.1 mem
      · exact .inr List.mem_cons_self
      · exact (ih mem).imp_right (List.mem_cons_of_mem _)

theorem nodup_keys_ofList (entries : List (κ × α)) : (ofList entries).keys.Nodup := by
  have kept : ∀ (entries : List (κ × α)) (t : Table κ α), t.keys.Nodup →
      (t.insertAll entries).keys.Nodup := by
    intro entries
    induction entries with
    | nil => exact fun _ => id
    | cons entry rest ih => exact fun t distinct => ih _ (nodup_keys_insert distinct _ _)
  exact kept entries empty List.nodup_nil

/-- A table has the keys of the list that it is made of. -/
theorem mem_keys_ofList {entries : List (κ × α)} :
    key ∈ (ofList entries).keys ↔ key ∈ entries.map Prod.fst := by
  have all : ∀ (entries : List (κ × α)) (t : Table κ α),
      key ∈ (t.insertAll entries).keys ↔ key ∈ t.keys ∨ key ∈ entries.map Prod.fst := by
    intro entries
    induction entries with
    | nil => simp [insertAll]
    | cons entry rest ih =>
      intro t
      rw [List.map_cons, List.mem_cons, ← or_assoc, ← mem_keys_insert]
      exact ih (t.insert entry.1 entry.2)
  exact (all entries empty).trans (or_iff_right List.not_mem_nil)

/-- A table has no entries but those of the list that it is made of. -/
theorem mem_of_mem_ofList {entries : List (κ × α)} {entry : κ × α}
    (mem : entry ∈ (ofList entries).entries) : entry ∈ entries := by
  have origin : ∀ (entries : List (κ × α)) (t : Table κ α),
      entry ∈ (t.insertAll entries).entries → entry ∈ t.entries ∨ entry ∈ entries := by
    intro entries
    induction entries with
    | nil => exact fun _ => .inl
    | cons first rest ih =>
      intro t mem
      rcases ih _ mem with there | later
      · exact (mem_entries_insert there).elim (fun eq => .inr (eq ▸ List.mem_cons_self)) .inl
      · exact .inr (List.mem_cons_of_mem _ later)
  exact (origin entries empty mem).resolve_left List.not_mem_nil

end Table

/-! ## The resources of a directory -/

namespace Bundle

variable {name : String} {files listed : List File} {r : Resource} {f : File}

/-- The files under their ids, before they are sorted. -/
private def byId (name : String) (files : List File) : Table String Resource :=
  .ofList (files.map fun f => (fileId name f, ofFile name f))

private theorem values_byId_id (name : String) (files : List File) :
    (byId name files).values.map (·.id) = (byId name files).keys := by
  unfold Table.values Table.keys
  rw [List.map_map]
  refine List.map_congr_left fun entry mem => ?_
  obtain ⟨f, -, rfl⟩ := List.mem_map.1 (Table.mem_of_mem_ofList mem)
  rfl

private theorem resources_perm (name : String) (files : List File) :
    (ofFiles name files).resources.Perm (byId name files).values := List.mergeSort_perm _ _

private theorem ids_perm (name : String) (files : List File) :
    (ofFiles name files).ids.Perm (byId name files).keys :=
  values_byId_id name files ▸ (resources_perm name files).map _

/-- **The ids are in order, and no id comes twice.** -/
theorem pairwise_ids (name : String) (files : List File) :
    (ofFiles name files).ids.Pairwise (· < ·) := by
  have sorted : (ofFiles name files).ids.Pairwise (· ≤ ·) := by
    refine List.pairwise_map.2 ((List.pairwise_mergeSort ?_ ?_ _).imp fun {a b} le => ?_)
    · intro a b c first second
      simp only [Bool.not_eq_true', decide_eq_false_iff_not, not_lt] at first second ⊢
      exact first.trans second
    · intro a b
      simp only [Bool.or_eq_true, Bool.not_eq_true', decide_eq_false_iff_not, not_lt]
      exact le_total _ _
    · rwa [Bool.not_eq_true', decide_eq_false_iff_not, not_lt] at le
  have distinct : (ofFiles name files).ids.Nodup :=
    (ids_perm name files).nodup_iff.2 (Table.nodup_keys_ofList _)
  exact sorted.imp₂ (fun _ _ le ne => lt_of_le_of_ne le ne) distinct

/-- The ids are those of the files. -/
theorem mem_ids_ofFiles {id : String} :
    id ∈ (ofFiles name files).ids ↔ ∃ f ∈ files, fileId name f = id := by
  rw [(ids_perm name files).mem_iff, byId, Table.mem_keys_ofList, List.map_map]
  exact List.mem_map

/-- The resources are files. -/
theorem exists_of_mem_resources (mem : r ∈ (ofFiles name files).resources) :
    ∃ f ∈ files, ofFile name f = r := by
  obtain ⟨entry, there, rfl⟩ := List.mem_map.1 ((resources_perm name files).mem_iff.1 mem)
  obtain ⟨f, isFile, rfl⟩ := List.mem_map.1 (Table.mem_of_mem_ofList there)
  exact ⟨f, isFile, rfl⟩

/-- The resource of an id that one file only has is this file. -/
theorem resource?_ofFiles (mem : f ∈ files)
    (alone : ∀ g ∈ files, fileId name g = fileId name f → g = f) :
    (ofFiles name files).resource? (fileId name f) = some (ofFile name f) := by
  obtain ⟨there, isThere, sameId⟩ := List.mem_map.1 (mem_ids_ofFiles.2 ⟨f, mem, rfl⟩)
  cases found : (ofFiles name files).resource? (fileId name f) with
  | none => exact absurd (beq_iff_eq.2 sameId) (List.find?_eq_none.1 found there isThere)
  | some r =>
    have isId : r.id = fileId name f := by simpa using List.find?_some found
    obtain ⟨g, isFile, rfl⟩ := exists_of_mem_resources (List.mem_of_find?_eq_some found)
    rw [alone g isFile isId]

/-! ## Main results -/

/-- **A bundle that has a file**: the id of the file is one of its ids, and under this id it has the
content of the file and its name. -/
structure Holds (b : Bundle) (name : String) (f : File) : Prop where
  listed : fileId name f ∈ b.ids
  content : b.read? (fileId name f) = some f.content
  fileName : b.fileName (fileId name f) = .ok f.path.getLast?

/-- **A file whose pieces no other file has is kept**, also where other files replace one another. -/
theorem ofFiles_holds (mem : f ∈ files) (alone : ∀ g ∈ files, g.pieces = f.pieces → g = f) :
    (ofFiles name files).Holds name f := by
  have found : (ofFiles name files).resource? (fileId name f) = some (ofFile name f) :=
    resource?_ofFiles mem fun g isFile same => alone g isFile ((fileId_eq_iff name g f).1 same)
  constructor
  case listed => exact mem_ids_ofFiles.2 ⟨f, mem, rfl⟩
  case content =>
    rw [read?, found]
    rfl
  case fileName =>
    show Except.ok (((ofFiles name files).resource? (fileId name f)).bind (·.fileName)) = _
    rw [found]
    rfl

/-- Of files with distinct pieces none replaces another. -/
theorem resources_ofFiles_perm (distinct : (files.map File.pieces).Nodup) :
    (ofFiles name files).resources.Perm (files.map (ofFile name)) := by
  have split : Text.splitAt '.' ∘ fileId name = (Text.splitAt '.' name ++ ·) ∘ File.pieces :=
    funext (splitAt_fileId name)
  have ids : (files.map (fileId name)).Nodup := by
    rw [← List.nodup_map_iff (Text.splitAt_injective '.'), List.map_map, split, ← List.map_map,
      List.nodup_map_iff (List.append_right_injective _)]
    exact distinct
  have all : (byId name files).values = files.map (ofFile name) := by
    rw [byId, Table.ofList_eq (by rwa [List.map_map]), Table.values, List.map_map]
    rfl
  exact all ▸ resources_perm name files

/-- The order in which files with distinct pieces are listed does not count. -/
theorem ofFiles_perm (distinct : (files.map File.pieces).Nodup) (order : listed.Perm files) :
    ofFiles name listed = ofFiles name files := by
  have perm : (ofFiles name listed).resources.Perm (ofFiles name files).resources :=
    (resources_ofFiles_perm ((order.map _).nodup_iff.2 distinct)).trans
      ((order.map _).trans (resources_ofFiles_perm distinct).symm)
  have same : (ofFiles name listed).resources = (ofFiles name files).resources :=
    perm.eq_of_pairwise (fun a b _ _ lt gt => absurd lt (not_lt_of_gt gt))
      (List.pairwise_map.1 (pairwise_ids name listed)) (List.pairwise_map.1 (pairwise_ids name files))
  exact congrArg (Bundle.mk name · false) same

/--
**What the bundle of a directory keeps.** Two files have one id exactly if their paths have the same
pieces. The ids of the bundle are those of the files, each once and in order, and every file whose
pieces no other file has can be read under its id, with its name. If no two files have the same
pieces, there is one id for each file, all files can be read, and the order in which they are listed
makes no difference.
-/
theorem ofFiles_keeps (name : String) (files : List File) :
    (∀ f g, fileId name f = fileId name g ↔ f.pieces = g.pieces) ∧
    (ofFiles name files).ids.Pairwise (· < ·) ∧
    (∀ id, id ∈ (ofFiles name files).ids ↔ ∃ f ∈ files, fileId name f = id) ∧
    (∀ f ∈ files, (∀ g ∈ files, g.pieces = f.pieces → g = f) → (ofFiles name files).Holds name f) ∧
    ((files.map File.pieces).Nodup →
      (ofFiles name files).ids.Perm (files.map (fileId name)) ∧
      (∀ f ∈ files, (ofFiles name files).Holds name f) ∧
      ∀ listed, listed.Perm files → ofFiles name listed = ofFiles name files) := by
  refine ⟨fileId_eq_iff name, pairwise_ids name files, fun _ => mem_ids_ofFiles,
    fun _ => ofFiles_holds, fun distinct => ⟨?_, fun f mem => ofFiles_holds mem fun g isFile same => ?_,
      fun _ => ofFiles_perm distinct⟩⟩
  · have resources : (ofFiles name files).resources.Perm (files.map (ofFile name)) :=
      resources_ofFiles_perm distinct
    have ids := resources.map (·.id)
    rwa [List.map_map] at ids
  · exact List.inj_on_of_nodup_map distinct isFile mem same

theorem ofFiles_keeps_views :
    let page : File := ⟨["Views", "MainPage.xaml"], ⟨#[60, 97, 47, 62]⟩⟩
    let note : File := ⟨["readme.txt"], ⟨#[104, 105]⟩⟩
    ([page, note].map File.pieces).Nodup ∧
    (ofFiles "app" [note, page]).ids.Perm ["app.Views.MainPage.xaml", "app.readme.txt"] ∧
    (ofFiles "app" [note, page]).Holds "app" page := by
  intro page note
  have distinct : ([page, note].map File.pieces).Nodup := by decide +kernel
  obtain ⟨-, -, -, -, kept⟩ := ofFiles_keeps "app" [page, note]
  obtain ⟨ids, holds, order⟩ := kept distinct
  have listed : [note, page].Perm [page, note] := List.Perm.swap page note []
  have ofIds : [page, note].map (fileId "app") = ["app.Views.MainPage.xaml", "app.readme.txt"] := by
    decide +kernel
  exact ⟨distinct, order _ listed ▸ ofIds ▸ ids, order _ listed ▸ holds page List.mem_cons_self⟩

/-- Files with the same pieces come under one id, and one of them is lost. -/
theorem ofFiles_loses :
    let dotted : File := ⟨["a.b", "c"], ⟨#[49]⟩⟩
    let nested : File := ⟨["a", "b", "c"], ⟨#[50]⟩⟩
    dotted.path ≠ nested.path ∧ fileId "app" dotted = fileId "app" nested ∧
    (ofFiles "app" [dotted, nested]).ids = ["app.a.b.c"] ∧
    (ofFiles "app" [dotted, nested]).read? (fileId "app" dotted) = some nested.content := by
  decide +kernel

end Bundle

end MarkupLoader
