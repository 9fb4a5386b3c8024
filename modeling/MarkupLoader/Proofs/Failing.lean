import Mathlib.Data.List.Forall2

/-!
# Steps that may fail

What a step that succeeds says about the steps that it is made of, and the invariants of loops of
such steps.

Two steps are **alike** (`Alike`) if they fail with one error or give results that go together.

Main statements: `ok_of_bind`, `foldlM_keeps`, `Alike.bind`.
-/

namespace MarkupLoader

variable {ε δ α β : Type}

/-- If one step after another succeeds, both do. -/
theorem ok_of_bind {step : Except ε α} {next : α → Except ε β} {b : β}
    (ok : step >>= next = .ok b) : ∃ a, step = .ok a ∧ next a = .ok b := by
  cases step with
  | error e => cases ok
  | ok a => exact ⟨a, rfl, ok⟩

/-- If one step after another fails, one of them does. -/
theorem error_of_bind {step : Except ε α} {next : α → Except ε β} {e : ε}
    (failed : step >>= next = .error e) :
    step = .error e ∨ ∃ a, step = .ok a ∧ next a = .error e := by
  cases step with
  | error other => exact .inl (congrArg Except.error (Except.error.inj failed))
  | ok a => exact .inr ⟨a, rfl, failed⟩

theorem ok_of_mapError {step : Except ε α} {f : ε → δ} {a : α} (ok : step.mapError f = .ok a) :
    step = .ok a := by
  cases step with
  | error e => cases ok
  | ok b => exact congrArg Except.ok (Except.ok.inj ok)

theorem error_of_mapError {step : Except ε α} {f : ε → δ} {e : δ}
    (failed : step.mapError f = .error e) : ∃ fault, step = .error fault ∧ f fault = e := by
  cases step with
  | error fault => exact ⟨fault, rfl, Except.error.inj failed⟩
  | ok a => cases failed

theorem ok_of_map {step : Except ε α} {f : α → β} {b : β} (ok : step.map f = .ok b) :
    ∃ a, step = .ok a ∧ f a = b := by
  cases step with
  | error e => cases ok
  | ok a => exact ⟨a, rfl, Except.ok.inj ok⟩

theorem ok_of_toOption {step : Except ε α} {a : α} (is : step.toOption = some a) : step = .ok a := by
  cases step with
  | error e => cases is
  | ok b => exact congrArg Except.ok (Option.some.inj is)

/-- A loop whose steps all succeed gives their results. -/
theorem mapM_eq_ok {f : α → Except ε β} {g : α → β} {list : List α}
    (each : ∀ a ∈ list, f a = .ok (g a)) : list.mapM f = .ok (list.map g) := by
  induction list with
  | nil => rfl
  | cons a rest ih =>
    obtain ⟨here, later⟩ := List.forall_mem_cons.1 each
    rw [List.mapM_cons, here, ih later]
    rfl

/-- A loop gives the results of its steps, one by one. -/
theorem mapM_eq_ok_iff {f : α → Except ε β} {list : List α} {results : List β} :
    list.mapM f = .ok results ↔ List.Forall₂ (fun a b => f a = .ok b) list results := by
  constructor
  · intro ok
    induction list generalizing results with
    | nil =>
      cases ok
      exact .nil
    | cons a rest ih =>
      rw [List.mapM_cons] at ok
      obtain ⟨b, here, ok⟩ := ok_of_bind ok
      obtain ⟨others, later, ok⟩ := ok_of_bind ok
      cases ok
      exact .cons here (ih later)
  · intro each
    induction each with
    | nil => rfl
    | cons here _ ih =>
      rw [List.mapM_cons, here, ih]
      rfl

/-- Of two lists that go together, each member of the second goes with one of the first. -/
theorem exists_of_forall₂ {R : α → β → Prop} {list : List α} {results : List β}
    (each : List.Forall₂ R list results) {b : β} (mem : b ∈ results) : ∃ a ∈ list, R a b := by
  induction each with
  | nil => cases mem
  | @cons a _ _ _ here _ ih =>
    rcases List.mem_cons.1 mem with rfl | later
    · exact ⟨a, List.mem_cons_self, here⟩
    · obtain ⟨x, there, related⟩ := ih later
      exact ⟨x, List.mem_cons_of_mem _ there, related⟩

/-- Each result of a loop comes from one of its steps. -/
theorem exists_of_mapM {f : α → Except ε β} {list : List α} {results : List β}
    (ok : list.mapM f = .ok results) {b : β} (mem : b ∈ results) :
    ∃ a ∈ list, f a = .ok b :=
  exists_of_forall₂ (mapM_eq_ok_iff.1 ok) mem

/-- What holds at first and is kept by every step of a loop holds in the end. -/
theorem foldlM_keeps {f : β → α → Except ε β} {P : β → Prop} {list : List α} {first last : β}
    (ok : list.foldlM f first = .ok last) (begins : P first)
    (keeps : ∀ a ∈ list, ∀ b c, P b → f b a = .ok c → P c) : P last := by
  induction list generalizing first with
  | nil =>
    cases ok
    exact begins
  | cons a rest ih =>
    rw [List.foldlM_cons] at ok
    obtain ⟨next, step, ok⟩ := ok_of_bind ok
    exact ih ok (keeps a List.mem_cons_self _ _ begins step)
      fun x mem => keeps x (List.mem_cons_of_mem _ mem)

/-! ## Two steps -/

/-- Two outcomes that are the same failure, or two results that are related. -/
inductive Alike (rel : α → β → Prop) : Except ε α → Except ε β → Prop
  | ok {a : α} {b : β} (related : rel a b) : Alike rel (.ok a) (.ok b)
  | error (e : ε) : Alike rel (.error e) (.error e)

namespace Alike

variable {α' β' : Type} {rel : α → β → Prop} {rel' : α' → β' → Prop}
  {first : Except ε α} {second : Except ε β}

theorem same (step : Except ε α) : Alike Eq step step := by
  cases step with
  | ok a => exact .ok rfl
  | error e => exact .error e

theorem bind {next : α → Except ε α'} {next' : β → Except ε β'} (alike : Alike rel first second)
    (later : ∀ a b, rel a b → Alike rel' (next a) (next' b)) :
    Alike rel' (first >>= next) (second >>= next') := by
  cases alike with
  | ok related => exact later _ _ related
  | error e => exact .error e

theorem map {f : α → α'} {g : β → β'} (alike : Alike rel first second)
    (maps : ∀ a b, rel a b → rel' (f a) (g b)) : Alike rel' (first.map f) (second.map g) := by
  cases alike with
  | ok related => exact .ok (maps _ _ related)
  | error e => exact .error e

theorem mapError (alike : Alike rel first second) (f : ε → δ) :
    Alike rel (first.mapError f) (second.mapError f) := by
  cases alike with
  | ok related => exact .ok related
  | error e => exact .error (f e)

variable {f : α → Except ε α'} {g : β → Except ε β'}

/-- Loops over lists that go together. -/
theorem mapM {list : List α} {list' : List β} (lists : List.Forall₂ rel list list')
    (steps : ∀ a b, rel a b → Alike rel' (f a) (g b)) :
    Alike (List.Forall₂ rel') (list.mapM f) (list'.mapM g) := by
  induction lists with
  | nil => exact .ok .nil
  | cons here _ ih =>
    rw [List.mapM_cons, List.mapM_cons]
    refine (steps _ _ here).bind fun a b related => ?_
    exact ih.bind fun as bs others => .ok (.cons related others)

theorem foldlM {step : α' → α → Except ε α'} {step' : β' → β → Except ε β'} {list : List α}
    {list' : List β} (lists : List.Forall₂ rel list list')
    (steps : ∀ x y a b, rel' x y → rel a b → Alike rel' (step x a) (step' y b)) {x : α'} {y : β'}
    (begins : rel' x y) : Alike rel' (list.foldlM step x) (list'.foldlM step' y) := by
  induction lists generalizing x y with
  | nil => exact .ok begins
  | cons here _ ih =>
    rw [List.foldlM_cons, List.foldlM_cons]
    exact (steps _ _ _ _ begins here).bind fun _ _ related => ih related

end Alike

end MarkupLoader
