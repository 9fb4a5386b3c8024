import Mathlib.Data.List.TakeWhile
import MarkupLoader.Proofs.Checking
import MarkupLoader.Proofs.ExpressionText

/-!
# The sources of expressions

An expression remembers the text that it was read from. **Every call stands for itself**: wherever
in a text it is written, reading its source alone gives it back, with the same name, arguments and
sources inside.

* **A reader looks at no more than one character** behind what it goes over (`GoesOver`): the one that
  ends a name, a run of blanks or a bare text. So what it reads of a text is the same before any other
  text that begins with this character.
* An expression ends with its own brace, and nothing behind that is looked at (`readArgs_within`).
* **The sources of nested arguments** stand in the text between the braces one behind the other
  (`Args.StandIn`).

Main results: `readArgs_within`, `AttributeText.stands_of_read`.
-/

namespace MarkupLoader

open Text

/-! ## What is gone over -/

/-- Reading a text gives `a` and leaves `rest`, and so it does before whatever begins like `rest`. -/
def GoesOver {α : Type} (read : List Char → Except ExpressionFault (α × List Char)) (s : List Char)
    (a : α) (rest : List Char) : Prop :=
  ∃ w, s = w ++ rest ∧ ∀ next, next.head? = rest.head? → read (w ++ next) = .ok (a, next)

section Runs

variable {s next rest : List Char}

/-- A run of characters ends before whatever begins like the text behind it. -/
theorem Text.run_append (p : Char → Bool) (s : List Char)
    (same : next.head? = (s.dropWhile p).head?) :
    (s.takeWhile p ++ next).takeWhile p = s.takeWhile p ∧
      (s.takeWhile p ++ next).dropWhile p = next := by
  have all : ∀ c ∈ s.takeWhile p, p c = true := fun c mem => List.mem_takeWhile_imp mem
  have stops : ∀ c ∈ next.head?, p c = false := by
    intro c first
    have ends := List.head?_dropWhile_not p s
    rw [← same, show next.head? = some c from first] at ends
    simpa using ends
  exact ⟨takeWhile_append all stops, dropWhile_append all stops⟩

/-- The blanks in front of a text are passed over. -/
theorem Text.exists_trimStart (s : List Char) :
    ∃ w, s = w ++ trimStart s ∧ ∀ next, next.head? = (trimStart s).head? →
      trimStart (w ++ next) = next :=
  ⟨s.takeWhile isBlank, List.takeWhile_append_dropWhile.symm, fun _ same =>
    (run_append isBlank s same).2⟩

theorem head?_append_congr (w : List Char) (same : next.head? = rest.head?) :
    (w ++ next).head? = (w ++ rest).head? := by
  rw [List.head?_append, List.head?_append, same]

end Runs

/-! ## Texts -/

section Leaves

variable {key : Option String} {s after rest : List Char} {lead : Lead}

theorem exists_readBare (s : List Char) :
    ∃ w, s = w ++ (readBare s).2 ∧ ∀ next, next.head? = (readBare s).2.head? →
      readBare (w ++ next) = ((readBare s).1, next) := by
  refine ⟨s.takeWhile (!endsBareText ·), List.takeWhile_append_dropWhile.symm, fun next same => ?_⟩
  obtain ⟨taken, left⟩ := run_append (!endsBareText ·) s same
  rw [readBare, taken, left]
  rfl

/-- A bare text and the blanks behind it are gone over. -/
theorem exists_readBare_trimStart (s : List Char) :
    ∃ w, s = w ++ trimStart (readBare s).2 ∧ ∀ next,
      next.head? = (trimStart (readBare s).2).head? → (w ++ next).head? = s.head? ∧
        (readBare (w ++ next)).1 = (readBare s).1 ∧ trimStart (readBare (w ++ next)).2 = next := by
  obtain ⟨token, isToken, readsToken⟩ := exists_readBare s
  obtain ⟨blanks, isBlanks, passesBlanks⟩ := exists_trimStart (readBare s).2
  refine ⟨token ++ blanks, by rw [List.append_assoc, ← isBlanks, ← isToken], fun next same => ?_⟩
  have sameBlanks : (blanks ++ next).head? = (readBare s).2.head? :=
    (head?_append_congr blanks same).trans (congrArg List.head? isBlanks.symm)
  have first := (head?_append_congr token sameBlanks).trans (congrArg List.head? isToken.symm)
  rw [List.append_assoc, readsToken _ sameBlanks]
  exact ⟨first, rfl, passesBlanks _ same⟩

/-- A quoted text ends with its quote, and what is behind that does not count. -/
theorem exists_of_readQuoted {value : List Char} (read : readQuoted s = .ok (value, after)) :
    ∃ w, s = w ++ after ∧ ∀ next, readQuoted (w ++ next) = .ok (value, next) := by
  fun_induction readQuoted s generalizing value with
  | case1 => cases read
  | case2 rest =>
    cases read
    exact ⟨['\''], rfl, fun _ => rfl⟩
  | case3 c rest ih =>
    obtain ⟨⟨inner, left⟩, inside, same⟩ := ok_of_map read
    cases same
    obtain ⟨w, rfl, again⟩ := ih inside
    refine ⟨'\\' :: c :: w, rfl, fun next => ?_⟩
    show (readQuoted (w ++ next)).map _ = _
    rw [again]
    rfl
  | case4 c rest noQuote noEscape ih =>
    obtain ⟨⟨inner, left⟩, inside, same⟩ := ok_of_map read
    cases same
    -- A backslash could only be the last character, and then the text would not be closed.
    have plain : c ≠ '\\' := by
      intro is
      cases rest with
      | nil => cases inside
      | cons d rest => exact noEscape d rest is rfl
    obtain ⟨w, rfl, again⟩ := ih inside
    refine ⟨c :: w, rfl, fun next => ?_⟩
    rw [List.cons_append, readQuoted, again]
    · rfl
    · exact noQuote
    · exact fun _ _ is _ => plain is

theorem readValue_bare (noBrace : s.head? ≠ some '{') (noQuote : s.head? ≠ some '\'') :
    readValue key s = .ok (.text key (readBare s).1, (readBare s).2) := by
  unfold readValue
  split
  · exact absurd rfl noBrace
  · exact absurd rfl noQuote
  · rfl

/-- The value of an argument is gone over. -/
theorem goesOver_readValue (read : readValue key s = .ok (lead, after)) :
    GoesOver (readValue key) s lead after := by
  by_cases brace : s.head? = some '{'
  · -- The brace only tells the kind: it is left to be read with the name.
    obtain ⟨rest, rfl⟩ := List.head?_eq_some_iff.1 brace
    cases read
    refine ⟨[], rfl, fun next same => ?_⟩
    obtain ⟨rest', rfl⟩ := List.head?_eq_some_iff.1 same
    rfl
  by_cases quote : s.head? = some '\''
  · obtain ⟨rest, rfl⟩ := List.head?_eq_some_iff.1 quote
    obtain ⟨⟨value, left⟩, inside, same⟩ := ok_of_map read
    cases same
    obtain ⟨w, rfl, again⟩ := exists_of_readQuoted inside
    refine ⟨'\'' :: w, rfl, fun next _ => ?_⟩
    show (readQuoted (w ++ next)).map _ = _
    rw [again]
    rfl
  · rw [readValue_bare brace quote] at read
    cases read
    obtain ⟨w, is, again⟩ := exists_readBare s
    refine ⟨w, is, fun next same => ?_⟩
    have begins := head?_append_congr w same
    rw [← is] at begins
    rw [readValue_bare (begins ▸ brace) (begins ▸ quote), again next same]

theorem readLead_value (begins : s.head? = some '{' ∨ s.head? = some '\'') :
    readLead s = readValue none s := by
  rcases begins with brace | quote
  · obtain ⟨rest, rfl⟩ := List.head?_eq_some_iff.1 brace
    rfl
  · obtain ⟨rest, rfl⟩ := List.head?_eq_some_iff.1 quote
    rfl

section Bare

variable (noBrace : s.head? ≠ some '{') (noQuote : s.head? ≠ some '\'')

include noBrace noQuote

/-- A bare text is a key if an equals sign follows. -/
theorem readLead_key (sign : trimStart (readBare s).2 = '=' :: rest) :
    readLead s = if (readBare s).1.isEmpty then .error .missingKey
      else readValue (some (readBare s).1) (trimStart rest) := by
  unfold readLead
  split
  · exact absurd rfl noBrace
  · exact absurd rfl noQuote
  · dsimp only
    rw [sign]
    rfl

theorem readLead_bare (noSign : (trimStart (readBare s).2).head? ≠ some '=') :
    readLead s = .ok (.text none (readBare s).1, trimStart (readBare s).2) := by
  unfold readLead
  split
  · exact absurd rfl noBrace
  · exact absurd rfl noQuote
  · dsimp only
    split
    case h_1 is => exact absurd (congrArg List.head? is) noSign
    case h_2 => rfl

end Bare

/-- An argument is gone over up to where a nested expression begins. -/
theorem goesOver_readLead (read : readLead s = .ok (lead, after)) :
    GoesOver readLead s lead after := by
  by_cases begins : s.head? = some '{' ∨ s.head? = some '\''
  · rw [readLead_value begins] at read
    obtain ⟨w, is, again⟩ := goesOver_readValue read
    refine ⟨w, is, fun next same => ?_⟩
    rw [is, ← head?_append_congr w same] at begins
    rw [readLead_value begins, again next same]
  obtain ⟨noBrace, noQuote⟩ := not_or.1 begins
  obtain ⟨bare, isBare, again⟩ := exists_readBare_trimStart s
  by_cases sign : (trimStart (readBare s).2).head? = some '='
  · obtain ⟨value, isSign⟩ := List.head?_eq_some_iff.1 sign
    rw [readLead_key noBrace noQuote isSign] at read
    split at read
    · cases read
    case isFalse named =>
    obtain ⟨gap, isGap, passesGap⟩ := exists_trimStart value
    obtain ⟨w, isValue, readsValue⟩ := goesOver_readValue read
    refine ⟨bare ++ '=' :: (gap ++ w), ?_, fun next same => ?_⟩
    · calc s = bare ++ '=' :: (gap ++ (w ++ after)) := by
            rw [← isValue, ← isGap, ← isSign, ← isBare]
        _ = _ := by simp
    -- The bare text, the sign and the value are met one after the other.
    have whole : bare ++ '=' :: (gap ++ w) ++ next = bare ++ '=' :: (gap ++ (w ++ next)) := by simp
    obtain ⟨first, text, signed⟩ := again ('=' :: (gap ++ (w ++ next))) sign.symm
    have open_gap : trimStart (gap ++ (w ++ next)) = w ++ next := by
      refine passesGap _ ?_
      rw [isValue]
      exact head?_append_congr w same
    rw [whole, readLead_key (first ▸ noBrace) (first ▸ noQuote) signed, text, if_neg named, open_gap,
      readsValue next same]
  · rw [readLead_bare noBrace noQuote sign] at read
    cases read
    refine ⟨bare, isBare, fun next same => ?_⟩
    obtain ⟨first, text, left⟩ := again next same
    rw [readLead_bare (first ▸ noBrace) (first ▸ noQuote) (left.symm ▸ same ▸ sign), left, text]

theorem head?_of_readValue_nested {key' : Option String}
    (read : readValue key s = .ok (.nested key', after)) : after.head? = some '{' := by
  unfold readValue at read
  split at read
  · cases read
    rfl
  · obtain ⟨_, -, other⟩ := ok_of_map read
    cases other
  · cases read

/-- A nested expression begins with its brace, which is left in place. -/
theorem head?_of_readLead_nested (read : readLead s = .ok (.nested key, after)) :
    after.head? = some '{' := by
  by_cases begins : s.head? = some '{' ∨ s.head? = some '\''
  · rw [readLead_value begins] at read
    exact head?_of_readValue_nested read
  obtain ⟨noBrace, noQuote⟩ := not_or.1 begins
  by_cases sign : (trimStart (readBare s).2).head? = some '='
  · obtain ⟨value, isSign⟩ := List.head?_eq_some_iff.1 sign
    rw [readLead_key noBrace noQuote isSign] at read
    split at read
    · cases read
    · exact head?_of_readValue_nested read
  · rw [readLead_bare noBrace noQuote sign] at read
    cases read

/-- Between an argument and the next one stands a comma that no closing brace follows. -/
theorem readSeparator_eq_ok_iff : readSeparator s = .ok after ↔
    (∃ next, trimStart s = ',' :: next ∧ after = trimStart next ∧ after.head? ≠ some '}') ∨
      trimStart s = after ∧ after.head? = some '}' := by
  unfold readSeparator
  constructor
  · intro read
    split at read
    case h_1 next comma =>
      split at read
      · cases read
      case h_2 goesOn =>
        cases read
        refine .inl ⟨next, comma, rfl, fun closes => ?_⟩
        obtain ⟨rest, is⟩ := List.head?_eq_some_iff.1 closes
        exact goesOn rest is
    case h_2 rest closing =>
      cases read
      exact .inr ⟨closing, rfl⟩
    all_goals cases read
  · rintro (⟨next, comma, rfl, goesOn⟩ | ⟨rfl, closes⟩)
    · simp only [comma]
      split
      case h_1 rest is => exact absurd (congrArg List.head? is) goesOn
      case h_2 => rfl
    · obtain ⟨rest, is⟩ := List.head?_eq_some_iff.1 closes
      rw [is]
      rfl

/-- What stands between two arguments is gone over; if it is nothing, the closing brace comes
next. -/
theorem exists_of_readSeparator (read : readSeparator s = .ok after) :
    ∃ w, s = w ++ after ∧ (w = [] → after.head? = some '}') ∧
      ∀ next, next.head? = after.head? → readSeparator (w ++ next) = .ok next := by
  obtain ⟨blanks, isBlanks, passesBlanks⟩ := exists_trimStart s
  rcases readSeparator_eq_ok_iff.1 read with ⟨later, comma, rfl, goesOn⟩ | ⟨rfl, closes⟩
  · obtain ⟨gap, isGap, passesGap⟩ := exists_trimStart later
    refine ⟨blanks ++ ',' :: gap, ?_, fun none => absurd none (by simp), fun next same => ?_⟩
    · calc s = blanks ++ ',' :: (gap ++ trimStart later) := by rw [← isGap, ← comma, ← isBlanks]
        _ = _ := by simp
    · have trimmed : trimStart (blanks ++ ',' :: gap ++ next) = ',' :: (gap ++ next) := by
        rw [List.append_assoc]
        exact passesBlanks _ (comma ▸ rfl)
      refine readSeparator_eq_ok_iff.2 (.inl ⟨_, trimmed, ?_, same ▸ goesOn⟩)
      exact (passesGap next same).symm
  · exact ⟨blanks, isBlanks, fun _ => closes, fun next same =>
      readSeparator_eq_ok_iff.2 (.inr ⟨passesBlanks next same, same.trans closes⟩)⟩

/-- After its brace an expression has a name, which is not empty. -/
theorem readHead_eq_ok_iff {head : ExpressionHead} : readHead ('{' :: s) = .ok (head, after) ↔
    ∃ name, (trimStart s).takeWhile isIdentifierChar = name ∧ name ≠ [] ∧
      head = ⟨(splitQualified (String.ofList name)).1, (splitQualified (String.ofList name)).2, "", ""⟩ ∧
      after = trimStart ((trimStart s).dropWhile isIdentifierChar) := by
  unfold readHead
  simp only [List.drop_succ_cons, List.drop_zero]
  constructor
  · intro read
    split at read
    · cases read
    case isFalse named =>
      cases read
      exact ⟨_, rfl, fun none => named (by rw [none]; rfl), rfl, rfl⟩
  · rintro ⟨_, rfl, named, rfl, rfl⟩
    rw [if_neg (by simpa using named)]

/-- The name of an expression is gone over with the blanks around it. The brace in front of it does
not close at once. -/
theorem exists_of_readHead {head : ExpressionHead} (read : readHead ('{' :: s) = .ok (head, after)) :
    ∃ w, s = w ++ after ∧ (∃ c cs, w = c :: cs ∧ c ≠ '}') ∧
      ∀ next, next.head? = after.head? → readHead ('{' :: (w ++ next)) = .ok (head, next) := by
  obtain ⟨name, isName, named, isHead, rfl⟩ := readHead_eq_ok_iff.1 read
  obtain ⟨lead, isLead, passesLead⟩ := exists_trimStart s
  obtain ⟨gap, isGap, passesGap⟩ := exists_trimStart ((trimStart s).dropWhile isIdentifierChar)
  have whole : name ++ (trimStart s).dropWhile isIdentifierChar = trimStart s := by
    rw [← isName, List.takeWhile_append_dropWhile]
  refine ⟨lead ++ (name ++ gap), ?_, ?_, fun next same => ?_⟩
  · calc s = lead ++ (name ++ (gap ++ trimStart ((trimStart s).dropWhile isIdentifierChar))) := by
          rw [← isGap, whole, ← isLead]
      _ = _ := by simp
  · cases first : lead ++ (name ++ gap) with
    | nil => exact absurd first (by simp [named])
    | cons c cs =>
      refine ⟨c, cs, rfl, ?_⟩
      rintro rfl
      -- A closing brace is neither a blank nor part of a name.
      have closes : s = '}' :: (cs ++ trimStart ((trimStart s).dropWhile isIdentifierChar)) := by
        rw [← List.cons_append, ← first, List.append_assoc, List.append_assoc, ← isGap, whole,
          ← isLead]
      rw [closes, trimStart_eq_self (by decide), List.takeWhile_cons_of_neg (by decide)] at isName
      exact named isName.symm
  · have sameGap := (head?_append_congr gap same).trans (congrArg List.head? isGap.symm)
    have sameName := (head?_append_congr name sameGap).trans (congrArg List.head? whole)
    obtain ⟨taken, left⟩ := run_append isIdentifierChar (trimStart s) sameGap
    rw [isName] at taken left
    rw [List.append_assoc, List.append_assoc]
    refine readHead_eq_ok_iff.2 ⟨name, ?_, named, isHead, ?_⟩
    · rw [passesLead _ sameName, taken]
    · rw [passesLead _ sameName, left, passesGap next same]

end Leaves

/-! ## Standing in a text -/

namespace Args

/-- The sources of the nested arguments stand in a text, one behind the other. -/
def StandIn : Args → List Char → Prop
  | nil, _ => True
  | text _ _ others, s => others.StandIn s
  | nested _ head _ others, s =>
    ∃ before after, s = before ++ (head.source.toList ++ after) ∧ others.StandIn after

theorem StandIn.append_left {args : Args} {s : List Char} (stand : args.StandIn s)
    (w : List Char) : args.StandIn (w ++ s) := by
  induction args with
  | nil => trivial
  | text key value others ih => exact ih stand
  | nested key head inner others _ _ =>
    obtain ⟨before, after, rfl, later⟩ := stand
    exact ⟨w ++ before, after, (List.append_assoc _ _ _).symm, later⟩

/-- The calls in a nested argument are the nested expression and the calls inside it. -/
theorem mem_calls_nested {key : Option String} {head : ExpressionHead} {inner others : Args}
    {f : Expression} : f ∈ (nested key head inner others).calls ↔
      f ∈ inner.calls ∨ f = ⟨head, inner⟩ ∨ f ∈ others.calls := by
  cases key with
  | none =>
    simp only [calls, callsOf, Option.isSome_none, if_true, Bool.false_eq_true, if_false,
      List.mem_append, List.mem_singleton, List.nil_append]
    tauto
  | some key =>
    simp only [calls, callsOf, Option.isSome_some, if_true, Bool.true_eq_false, if_false,
      List.mem_append, List.mem_singleton, List.nil_append]
    tauto

end Args

/-- **An expression that stands for itself** in a text: its source is a part of the text and goes from
a brace to a brace, the sources of its nested arguments stand in between, one behind the other, and
its source alone is read as the expression. -/
structure Expression.StandsIn (f : Expression) (s : List Char) : Prop where
  part : f.head.source.toList <:+: s
  braces : ∃ inside, f.head.source.toList = '{' :: (inside ++ ['}']) ∧ f.args.StandIn inside
  alone : AttributeText.read f.head.source = .ok (.expression f)

theorem Expression.StandsIn.within {f : Expression} {s t : List Char} (stands : f.StandsIn s)
    (part : s <:+: t) : f.StandsIn t :=
  { stands with part := stands.part.trans part }

/-- Arguments that are read up to a closing brace, whatever comes behind it and however much fuel
there is, as long as it is enough for what stands in front of the brace. -/
structure Args.ReadFrom (args : Args) (named : Bool) (inside : List Char) : Prop where
  stand : args.StandIn inside
  calls : ∀ f ∈ args.calls, f.StandsIn inside
  read : ∀ fuel next, inside.length < fuel →
    readArgs fuel named (inside ++ '}' :: next) = .ok (args, next)

/-- A stretch of text that opens an expression of a given head, with `inside` in front of the brace
that closes it. -/
structure ExpressionHead.Opens (head : ExpressionHead) (stretch inside : List Char) : Prop where
  begins : ∃ c lead, stretch = '{' :: c :: (lead ++ (inside ++ ['}'])) ∧ c ≠ '}'
  read : ∀ next, readHead (stretch ++ next) = .ok (head, inside ++ '}' :: next)

theorem exists_opens {s inside closed : List Char} {head : ExpressionHead}
    (name : readHead ('{' :: s) = .ok (head, inside ++ '}' :: closed)) :
    ∃ stretch, '{' :: s = stretch ++ closed ∧ head.Opens stretch inside := by
  obtain ⟨_, rfl, ⟨c, lead, rfl, opens⟩, again⟩ := exists_of_readHead name
  refine ⟨'{' :: c :: (lead ++ (inside ++ ['}'])), by simp, ⟨c, lead, rfl, opens⟩, fun next => ?_⟩
  have read := again (inside ++ '}' :: next) (head?_append_congr inside rfl)
  rw [← read]
  simp

namespace ExpressionHead.Opens

variable {head : ExpressionHead} {stretch inside : List Char} {args : Args}

theorem length_lt (opens : head.Opens stretch inside) : inside.length < stretch.length := by
  obtain ⟨c, lead, is, -⟩ := opens.begins
  rw [is]
  simp only [List.length_cons, List.length_append, List.length_nil]
  omega

/-- The stretch alone is read as the expression. -/
theorem read_ofList (opens : head.Opens stretch inside) (reads : args.ReadFrom false inside) :
    AttributeText.read (String.ofList stretch) =
      .ok (.expression ⟨{ head with source := String.ofList stretch }, args⟩) := by
  have alone : readExpression stretch =
      .ok ⟨{ head with source := String.ofList stretch }, args⟩ := by
    have name : readHead stretch = .ok (head, inside ++ ['}']) := by
      simpa using opens.read []
    have rest : readArgs (inside ++ ['}']).length false (inside ++ ['}']) = .ok (args, []) :=
      reads.read _ [] (by simp)
    have source : head.withSource stretch [] = { head with source := String.ofList stretch } := by
      simpa using head.withSource_append stretch []
    unfold readExpression
    simp only [name, rest, bind, Except.bind, source]
    rfl
  obtain ⟨c, lead, is, first⟩ := opens.begins
  have start : trimStart stretch = stretch := is ▸ trimStart_eq_self (by decide)
  unfold AttributeText.read
  rw [String.toList_ofList, start]
  split
  case h_1 => exact absurd (List.cons.inj (List.cons.inj is).2).1.symm first
  case h_2 =>
    rw [alone]
    rfl
  case h_3 other => exact absurd is (other _)

/-- An expression stands for itself if its arguments do. -/
theorem stands (opens : head.Opens stretch inside) (reads : args.ReadFrom false inside) :
    ∀ f ∈ Expression.calls ⟨{ head with source := String.ofList stretch }, args⟩,
      f.StandsIn stretch := by
  obtain ⟨c, lead, is, -⟩ := opens.begins
  intro f mem
  rcases List.mem_append.1 mem with deeper | itself
  · exact (reads.calls f deeper).within ⟨'{' :: c :: lead, ['}'], by simp [is]⟩
  · obtain rfl := List.mem_singleton.1 itself
    refine ⟨?_, ⟨c :: lead ++ inside, ?_, reads.stand.append_left _⟩, opens.read_ofList reads⟩
    · simp
    · rw [String.toList_ofList, is]
      simp

end ExpressionHead.Opens

theorem GoesOn.congr {s t : List Char} (goesOn : GoesOn s) (same : t.head? = s.head?) : GoesOn t := by
  unfold GoesOn
  rw [same]
  exact goesOn

/-- **Arguments are read up to their closing brace, and nothing behind it is looked at.** The induction
goes over the arguments one by one and into each nested expression. -/
theorem readArgs_within {fuel : Nat} {named : Bool} {s rest : List Char} {args : Args}
    (read : readArgs fuel named s = .ok (args, rest)) :
    ∃ inside, s = inside ++ '}' :: rest ∧ args.ReadFrom named inside := by
  induction fuel generalizing named s rest args with
  | zero => cases read
  | succ fuel ih =>
    cases readArgs_eq_ok_iff.1 read with
    | ending =>
      refine ⟨[], rfl, trivial, nofun, fun fuel next enough => ?_⟩
      obtain ⟨fuel, rfl⟩ := Nat.exists_eq_add_one_of_ne_zero (Nat.ne_zero_of_lt enough)
      rfl
    | @text _ after next _ key value others goesOn lead place separator later =>
      obtain ⟨w, rfl, readsLead⟩ := goesOver_readLead lead
      obtain ⟨gap, rfl, closes, readsGap⟩ := exists_of_readSeparator separator
      obtain ⟨inside, rfl, reads⟩ := ih later
      -- Something has been gone over, as the closing brace does not come at once.
      have taken : 0 < (w ++ gap).length := by
        refine List.length_pos_iff.2 fun none => ?_
        obtain ⟨rfl, rfl⟩ := List.append_eq_nil_iff.1 none
        obtain ⟨c, first, other⟩ := goesOn
        exact other (Option.some.inj ((closes rfl).symm.trans first)).symm
      have part : inside <:+: w ++ gap ++ inside := (List.suffix_append _ _).isInfix
      refine ⟨w ++ gap ++ inside, by simp only [List.append_assoc],
        reads.stand.append_left _, fun f mem => (reads.calls f mem).within part,
        fun fuel' next enough => ?_⟩
      obtain ⟨fuel', rfl⟩ := Nat.exists_eq_add_one_of_ne_zero (Nat.ne_zero_of_lt enough)
      have sameLater : (inside ++ '}' :: next).head? = (inside ++ '}' :: rest).head? :=
        head?_append_congr inside rfl
      have sameGap := head?_append_congr gap sameLater
      rw [List.append_assoc, List.append_assoc]
      refine readArgs_eq_ok_iff.2 (.text (goesOn.congr (head?_append_congr w sameGap))
        (readsLead _ sameGap) place (readsGap _ sameLater) (reads.read _ next ?_))
      rw [List.length_append] at enough
      omega
    | @nested _ after inside closed next _ key head inner others goesOn lead name within place
        separator later =>
      obtain ⟨w, rfl, readsLead⟩ := goesOver_readLead lead
      obtain ⟨after, rfl⟩ := List.head?_eq_some_iff.1 (head?_of_readLead_nested lead)
      obtain ⟨inside, rfl, readsInner⟩ := ih within
      obtain ⟨gap, rfl, -, readsGap⟩ := exists_of_readSeparator separator
      obtain ⟨behind, rfl, reads⟩ := ih later
      obtain ⟨stretch, whole, opens⟩ := exists_opens name
      rw [whole, ExpressionHead.withSource_append]
      have partInner : stretch <:+: w ++ (stretch ++ (gap ++ behind)) := ⟨w, gap ++ behind, by simp⟩
      have partBehind : behind <:+: w ++ (stretch ++ (gap ++ behind)) :=
        ⟨w ++ (stretch ++ gap), [], by simp⟩
      have stands := opens.stands readsInner
      refine ⟨w ++ (stretch ++ (gap ++ behind)), by simp only [List.append_assoc],
        ⟨w, gap ++ behind, by rw [String.toList_ofList], reads.stand.append_left gap⟩,
        fun f mem => ?_, fun fuel' next enough => ?_⟩
      · rcases Args.mem_calls_nested.1 mem with deeper | rfl | others
        · exact (stands f (List.mem_append_left _ deeper)).within partInner
        · exact (stands _ (List.mem_append_right _ (List.mem_singleton_self _))).within partInner
        · exact (reads.calls f others).within partBehind
      · obtain ⟨fuel', rfl⟩ := Nat.exists_eq_add_one_of_ne_zero (Nat.ne_zero_of_lt enough)
        have short := opens.length_lt
        simp only [List.length_append] at enough
        have sameBehind : (behind ++ '}' :: next).head? = (behind ++ '}' :: rest).head? :=
          head?_append_congr behind rfl
        have sameLead : (stretch ++ (gap ++ (behind ++ '}' :: next))).head? =
            ('{' :: after).head? := by
          obtain ⟨c, lead, is, -⟩ := opens.begins
          rw [is]
          rfl
        have sameHead := head?_append_congr w sameLead
        have source : head.withSource (stretch ++ (gap ++ (behind ++ '}' :: next)))
            (gap ++ (behind ++ '}' :: next)) = { head with source := String.ofList stretch } :=
          ExpressionHead.withSource_append _ _
        rw [← source, List.append_assoc, List.append_assoc, List.append_assoc]
        exact readArgs_eq_ok_iff.2 (.nested (goesOn.congr sameHead) (readsLead _ sameLead)
          (opens.read _) (readsInner.read _ _ (by omega)) place (readsGap _ sameBehind)
          (reads.read _ next (by omega)))

/-! ## Expressions -/

/--
**Every call stands for itself.** Where a text is read as an expression, the source of the expression
and of every expression nested in it at any depth is a part of the text that begins with an opening
brace and ends with a closing one. Between these braces the sources of the arguments stand one behind
the other, and reading a source alone gives the very expression that it belongs to.
-/
theorem AttributeText.stands_of_read {text : String} {e : Expression}
    (read : AttributeText.read text = .ok (.expression e)) : ∀ f ∈ e.calls, f.StandsIn text.toList := by
  obtain ⟨blanks, isText, -⟩ := exists_trimStart text.toList
  obtain ⟨rest, head, inside, args, closed, begins, name, within, rfl⟩ := exists_of_read read
  obtain ⟨inside, rfl, reads⟩ := readArgs_within within
  obtain ⟨stretch, whole, opens⟩ := exists_opens name
  have part : stretch <:+: text.toList := ⟨blanks, closed, by rw [isText, begins, whole]; simp⟩
  rw [whole, ExpressionHead.withSource_append]
  exact fun f mem => (opens.stands reads f mem).within part

/-- Blanks in every place, a quoted brace, and an expression in an argument that is named. -/
theorem AttributeText.stands_of_read_blanks :
    let text := " \x7b a:B\t\x7bC '\x7d\\''\x7d , K = \x7b D \x7bE,F=\x7bG\x7d\x7d \x7d \x7d "
    let c : ExpressionHead := ⟨none, "C", "", "\x7bC '\x7d\\''\x7d"⟩
    let d : ExpressionHead := ⟨none, "D", "", "\x7b D \x7bE,F=\x7bG\x7d\x7d \x7d"⟩
    let inner : Expression := ⟨⟨none, "E", "", "\x7bE,F=\x7bG\x7d\x7d"⟩,
      .text none "" (.nested (some "F") ⟨none, "G", "", "\x7bG\x7d"⟩ .nil .nil)⟩
    let e : Expression := ⟨⟨some "a", "B", "",
        "\x7b a:B\t\x7bC '\x7d\\''\x7d , K = \x7b D \x7bE,F=\x7bG\x7d\x7d \x7d \x7d"⟩,
      .nested none c (.text none "\x7d'" .nil)
        (.nested (some "K") d (.nested none inner.head inner.args .nil) .nil)⟩
    AttributeText.read text = .ok (.expression e) ∧
      e.calls.map (·.head.name) = ["C", "G", "E", "D", "B"] ∧ inner ∈ e.calls ∧
      inner.StandsIn text.toList := by
  intro text c d inner e
  have read : AttributeText.read text = .ok (.expression e) := ok_of_toOption (by decide +kernel)
  have mem : inner ∈ e.calls := by decide +kernel
  exact ⟨read, by decide +kernel, mem, stands_of_read read inner mem⟩

end MarkupLoader
