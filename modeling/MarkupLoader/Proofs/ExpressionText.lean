import MarkupLoader.Expression.Reader
import MarkupLoader.Proofs.Recognition

/-!
# Writing expressions and reading them back

The text of an expression: a name in braces, then the arguments, separated by commas, with every
text in quotes. A reader that looks one character ahead gives the expression back, at any depth
of nesting.

* **Quoting** puts a backslash before every quote and every backslash, so a text argument may hold
  any characters at all, the ones that end a bare text included.
* **Keys** are not quoted. They are read as bare texts, which end before a comma, a closing brace
  or an equals sign and lose the blanks around them; `WritableKey` says which texts come through.
* **What is read** is the expression that was written but for what a reader cannot know, the
  namespaces of its names, and for the sources, which are now the texts written (`asRead`).

Main result: `read_written`.
-/

namespace MarkupLoader

open Text

/-! ## What is written -/

/-- A text with a backslash before every quote and every backslash. -/
def escaped (s : List Char) : List Char :=
  s.flatMap fun c => if c = '\'' ∨ c = '\\' then ['\\', c] else [c]

/-- A text in quotes. -/
def quoted (text : String) : List Char := '\'' :: (escaped text.toList ++ ['\''])

/-- The key of an argument, if it has one, and the sign behind it. -/
def writtenKey : Option String → List Char
  | none => []
  | some key => key.toList ++ ['=']

namespace ExpressionHead

/-- The name with its qualifier. -/
def written (h : ExpressionHead) : List Char :=
  match h.qualifier with
  | none => h.name.toList
  | some qualifier => qualifier.toList ++ ':' :: h.name.toList

/-- A name of identifier characters that is cut at its first colon. -/
structure Writable (h : ExpressionHead) : Prop where
  nonempty : h.written ≠ []
  chars : ∀ c ∈ h.written, isIdentifierChar c = true
  cut : splitQualified (String.ofList h.written) = (h.qualifier, h.name)

instance (h : ExpressionHead) : Decidable h.Writable :=
  decidable_of_iff (h.written ≠ [] ∧ h.written.all isIdentifierChar = true ∧
      splitQualified (String.ofList h.written) = (h.qualifier, h.name))
    ⟨fun ⟨nonempty, chars, cut⟩ => ⟨nonempty, List.all_eq_true.1 chars, cut⟩,
      fun h => ⟨h.nonempty, List.all_eq_true.2 h.chars, h.cut⟩⟩

end ExpressionHead

/-- A key that is read as it stands. -/
structure WritableKey (key : List Char) : Prop where
  nonempty : key ≠ []
  trimmed : trim key = key
  free : ∀ c ∈ key, endsBareText c = false
  opens : ∀ c ∈ key.head?, c ≠ '{' ∧ c ≠ '\''

instance (key : List Char) : Decidable (WritableKey key) :=
  decidable_of_iff (key ≠ [] ∧ trim key = key ∧ key.all (!endsBareText ·) = true ∧
      key.head? ≠ some '{' ∧ key.head? ≠ some '\'')
    ⟨fun ⟨nonempty, trimmed, free, noBrace, noQuote⟩ =>
      ⟨nonempty, trimmed, by simpa using free, fun _ first =>
        ⟨fun is => noBrace (is ▸ first), fun is => noQuote (is ▸ first)⟩⟩,
      fun h => ⟨h.nonempty, h.trimmed, by simpa using h.free,
        fun first => (h.opens _ first).1 rfl, fun first => (h.opens _ first).2 rfl⟩⟩

/-- The key that an argument may have. `named` tells whether one of the arguments before it is
named: then it has to be named too. -/
def WritablePlace (named : Bool) : Option String → Prop
  | none => named = false
  | some key => WritableKey key.toList

instance (named : Bool) : ∀ key, Decidable (WritablePlace named key)
  | none => inferInstanceAs (Decidable (named = false))
  | some key => inferInstanceAs (Decidable (WritableKey key.toList))

namespace Args

/-- Arguments as they are written, each after a comma; `lead` stands before the first of them. -/
def written (lead : List Char) : Args → List Char
  | nil => []
  | text key value others =>
    lead ++ (writtenKey key ++ (quoted value ++ others.written [',', ' ']))
  | nested key head inner others =>
    lead ++ (writtenKey key ++ ('{' :: (head.written ++ (inner.written [' '] ++
      '}' :: others.written [',', ' ']))))

/-- Arguments that can be written: the names and the keys are writable, and the positional
arguments come before the named ones. -/
def Writable (named : Bool) : Args → Prop
  | nil => True
  | text key _ others => WritablePlace named key ∧ others.Writable key.isSome
  | nested key head inner others =>
    WritablePlace named key ∧ head.Writable ∧ inner.Writable false ∧ others.Writable key.isSome

instance decidableWritable (named : Bool) : ∀ args : Args, Decidable (args.Writable named)
  | nil => .isTrue trivial
  | text key _ others =>
    have := others.decidableWritable key.isSome
    inferInstanceAs (Decidable (_ ∧ _))
  | nested key _ inner others =>
    have := inner.decidableWritable false
    have := others.decidableWritable key.isSome
    inferInstanceAs (Decidable (_ ∧ _ ∧ _ ∧ _))

end Args

namespace Expression

/-- An expression as it is written. -/
def written (e : Expression) : List Char :=
  '{' :: (e.head.written ++ (e.args.written [' '] ++ ['}']))

structure Writable (e : Expression) : Prop where
  head : e.head.Writable
  args : e.args.Writable false

instance (e : Expression) : Decidable e.Writable :=
  decidable_of_iff (e.head.Writable ∧ e.args.Writable false)
    ⟨fun ⟨head, args⟩ => ⟨head, args⟩, fun h => ⟨h.head, h.args⟩⟩

end Expression

/-! ## What is read -/

/-- The head of an expression as it is read: the name is not resolved, and the source is the text
of the expression. -/
def ExpressionHead.asRead (h : ExpressionHead) (args : Args) : ExpressionHead :=
  ⟨h.qualifier, h.name, "", String.ofList (Expression.written ⟨h, args⟩)⟩

def Args.asRead : Args → Args
  | nil => nil
  | text key value others => text key value others.asRead
  | nested key head inner others => nested key (head.asRead inner) inner.asRead others.asRead

/-- An expression as it is read, with a source for every expression inside it. -/
def Expression.asRead (e : Expression) : Expression := ⟨e.head.asRead e.args, e.args.asRead⟩

/-- A blank at the beginning of a text is passed over. -/
theorem Text.trimStart_cons {c : Char} (blank : isBlank c = true) (s : List Char) :
    trimStart (c :: s) = trimStart s := by
  rw [trimStart, List.dropWhile_cons_of_pos blank, ← trimStart]

/-- A text is cut into what stands before and after the separator. -/
theorem Text.eq_of_cut? {separator : Char} {s : List Char} :
    ∀ {before after : List Char}, cut? separator s = some (before, after) →
      s = before ++ separator :: after := by
  induction s with
  | nil => nofun
  | cons c s ih =>
    intro before after cut
    rw [cut?] at cut
    by_cases here : c = separator
    · rw [if_pos here] at cut
      cases cut
      rw [here, List.nil_append]
    · rw [if_neg here] at cut
      obtain ⟨⟨first, later⟩, is, same⟩ := Option.map_eq_some_iff.1 cut
      cases same
      rw [ih is, List.cons_append]

/-! ## Names -/

section Heads

variable {head : ExpressionHead} {s : List Char}

/-- Any text of identifier characters is a name that can be written: the one it is cut into. -/
theorem ExpressionHead.writable_of_split (nonempty : s ≠ [])
    (chars : ∀ c ∈ s, isIdentifierChar c = true)
    (split : splitQualified (String.ofList s) = (head.qualifier, head.name)) :
    head.written = s ∧ head.Writable := by
  have same : head.written = s := by
    unfold splitQualified at split
    rw [String.toList_ofList] at split
    unfold written
    -- Cutting loses the colon only, and that is written again.
    cases found : cut? ':' s with
    | none =>
      rw [found] at split
      obtain ⟨unqualified, name⟩ := Prod.mk.inj split
      rw [← unqualified, ← name]
      exact String.toList_ofList
    | some parts =>
      rw [found] at split
      obtain ⟨qualified, name⟩ := Prod.mk.inj split
      rw [← qualified, ← name, String.toList_ofList]
      simp only [String.toList_ofList]
      exact (eq_of_cut? found).symm
  exact ⟨same, same.symm ▸ nonempty, same.symm ▸ chars, same.symm ▸ split⟩

/-- A name is read up to what cannot go on with it. -/
theorem readHead_written (writable : head.Writable)
    (stops : ∀ c ∈ s.head?, isIdentifierChar c = false) :
    readHead ('{' :: (head.written ++ s)) =
      .ok (⟨head.qualifier, head.name, "", ""⟩, trimStart s) := by
  have start : trimStart (head.written ++ s) = head.written ++ s := by
    obtain ⟨c, cs, is⟩ := List.exists_cons_of_ne_nil writable.nonempty
    have char : isNameChar c = true :=
      isNameChar_of_isIdentifierChar (writable.chars c (is ▸ List.mem_cons_self))
    rw [is, List.cons_append]
    refine trimStart_eq_self (eq_false_of_ne_true fun blank => ?_)
    rw [isNameChar_of_isBlank blank] at char
    cases char
  have named : (String.ofList head.written).isEmpty = false := by
    simpa using writable.nonempty
  unfold readHead
  simp only [List.drop_succ_cons, List.drop_zero, start, takeWhile_append writable.chars stops,
    dropWhile_append writable.chars stops, named, Bool.false_eq_true, if_false, writable.cut]

/-- The text between two places is the source of a head. -/
theorem ExpressionHead.withSource_append (w rest : List Char) :
    head.withSource (w ++ rest) rest = { head with source := String.ofList w } := by
  unfold ExpressionHead.withSource
  rw [List.length_append, Nat.add_sub_cancel, List.take_left]

end Heads

/-! ## Texts -/

/-- A quoted text is read up to the quote that closes it. -/
theorem readQuoted_escaped (s rest : List Char) :
    readQuoted (escaped s ++ '\'' :: rest) = .ok (s, rest) := by
  induction s with
  | nil => rfl
  | cons c s ih =>
    rw [escaped, List.flatMap_cons, ← escaped]
    split
    case isTrue =>
      -- Behind a backslash the reader takes whatever comes.
      show (readQuoted (escaped s ++ '\'' :: rest)).map _ = _
      rw [ih]
      rfl
    case isFalse ordinary =>
      obtain ⟨noQuote, noBackslash⟩ := not_or.1 ordinary
      show readQuoted (c :: (escaped s ++ '\'' :: rest)) = _
      rw [readQuoted, ih]
      · rfl
      · exact noQuote
      · exact fun _ _ is _ => noBackslash is

theorem readValue_quoted (key : Option String) (value : String) (s : List Char) :
    readValue key (quoted value ++ s) = .ok (.text key value, s) := by
  have text : quoted value ++ s = '\'' :: (escaped value.toList ++ '\'' :: s) := by simp [quoted]
  rw [text]
  show (readQuoted (escaped value.toList ++ '\'' :: s)).map _ = _
  rw [readQuoted_escaped]
  simp [Except.map]

/-! ## Keys -/

/-- The first character of a value that is written, which tells its kind. -/
inductive OpensValue : List Char → Prop
  | quoted {s : List Char} : OpensValue ('\'' :: s)
  | nested {s : List Char} : OpensValue ('{' :: s)

theorem OpensValue.trimStart {s : List Char} (opens : OpensValue s) : trimStart s = s := by
  cases opens <;> exact trimStart_eq_self (by decide)

section Leads

variable {named : Bool} {key : Option String} {s : List Char}

/-- No blank stands before a key. -/
theorem WritableKey.isBlank_head {key : List Char} (writable : WritableKey key) :
    ∀ c ∈ key.head?, isBlank c = false := by
  intro c mem
  refine eq_false_of_ne_true fun blank => ?_
  obtain ⟨cs, rfl⟩ : ∃ cs, key = c :: cs := by
    cases key with
    | nil => cases mem
    | cons d cs => exact ⟨cs, by rw [Option.some.inj mem]⟩
  -- If a blank came first, trimming would make the key shorter.
  have shorter : (trim (c :: cs)).length ≤ cs.length := by
    rw [trim, trimStart_cons blank, trimEnd, List.length_reverse]
    have ending : ((trimStart cs).reverse.dropWhile isBlank).length ≤
        (trimStart cs).reverse.length := (List.dropWhile_sublist isBlank).length_le
    rw [List.length_reverse] at ending
    exact Nat.le_trans ending (List.dropWhile_sublist _).length_le
  rw [writable.trimmed, List.length_cons] at shorter
  omega

/-- A key that is written is read before the sign behind it. -/
theorem readBare_key {key : List Char} (writable : WritableKey key) (s : List Char) :
    readBare (key ++ '=' :: s) = (String.ofList key, '=' :: s) := by
  have inside : ∀ c ∈ key, (!endsBareText c) = true := by
    intro c mem
    rw [writable.free c mem]
    rfl
  have ends : ∀ c ∈ ('=' :: s).head?, (!endsBareText c) = false := by
    rintro _ ⟨⟩
    rfl
  rw [readBare, takeWhile_append inside ends, dropWhile_append inside ends, writable.trimmed]

/-- An argument begins with its key, if it has one, and then with its value. -/
theorem readLead_written (place : WritablePlace named key) (opens : OpensValue s) :
    readLead (writtenKey key ++ s) = readValue key s := by
  cases key with
  | none => cases opens <;> rfl
  | some key =>
    obtain ⟨c, cs, is⟩ := List.exists_cons_of_ne_nil (WritableKey.nonempty place)
    have first := WritableKey.opens place c (is ▸ rfl)
    have text : writtenKey (some key) ++ s = key.toList ++ '=' :: s := by simp [writtenKey]
    have nonempty : key.isEmpty = false := by
      rw [← String.ofList_toList (s := key), is]
      simp
    have sign : trimStart ('=' :: s) = '=' :: s := trimStart_eq_self (by decide)
    -- A key begins like no value, so a bare text is read; the sign behind it makes it the key.
    unfold readLead
    split
    case h_1 found => simp [text, is, first.1] at found
    case h_2 found => simp [text, is, first.2] at found
    case h_3 =>
      rw [text, readBare_key place]
      simp only [String.ofList_toList, sign, nonempty, Bool.false_eq_true, if_false,
        opens.trimStart]

/-- What an argument begins with is no blank and closes nothing. -/
theorem head?_writtenKey (place : WritablePlace named key) (opens : OpensValue s) :
    ∃ c cs, writtenKey key ++ s = c :: cs ∧ isBlank c = false ∧ c ≠ '}' := by
  cases key with
  | none => cases opens <;> exact ⟨_, _, rfl, by decide, by decide⟩
  | some key =>
    obtain ⟨c, cs, is⟩ := List.exists_cons_of_ne_nil (WritableKey.nonempty place)
    have notBlank := WritableKey.isBlank_head place c (is ▸ rfl)
    refine ⟨c, cs ++ '=' :: s, by simp [writtenKey, is], notBlank, ?_⟩
    rintro rfl
    have free := WritableKey.free place '}' (is ▸ List.mem_cons_self)
    cases free

theorem checkOrder_of_place {lead : Lead} (place : WritablePlace named key)
    (is : lead.key = key) : checkOrder named lead = .ok () := by
  subst is
  unfold checkOrder
  cases found : lead.key with
  | none =>
    rw [found] at place
    obtain rfl : named = false := place
    rfl
  | some key => simp

end Leads

/-! ## Arguments -/

section Arguments

variable {named : Bool} {args : Args}

/-- What stands before the first argument only adds to the length. -/
theorem Args.length_written_nil_le (args : Args) (lead : List Char) :
    (args.written []).length ≤ (args.written lead).length := by
  cases args <;> simp [Args.written]

/-- What arguments begin with is no blank and closes nothing; only the text before the first of
them changes with the place they stand at. -/
theorem Args.written_cases (writable : args.Writable named) :
    args = .nil ∨ ∃ c cs, isBlank c = false ∧ c ≠ '}' ∧
      ∀ lead, args.written lead = lead ++ c :: cs := by
  cases args with
  | nil => exact .inl rfl
  | text key value others =>
    have opens : OpensValue ('\'' :: (escaped value.toList ++ '\'' :: others.written [',', ' '])) :=
      .quoted
    obtain ⟨c, cs, is, begins⟩ := head?_writtenKey writable.1 opens
    refine .inr ⟨c, cs, begins.1, begins.2, fun lead => ?_⟩
    simp [written, quoted, ← is]
  | nested key head inner others =>
    have opens : OpensValue ('{' :: (head.written ++ (inner.written [' '] ++
        '}' :: others.written [',', ' ']))) := .nested
    obtain ⟨c, cs, is, begins⟩ := head?_writtenKey writable.1 opens
    refine .inr ⟨c, cs, begins.1, begins.2, fun lead => ?_⟩
    simp [written, ← is]

variable (rest : List Char)

/-- The blank before the first argument is passed over. -/
theorem Args.trimStart_written (writable : args.Writable named) :
    trimStart (args.written [' '] ++ '}' :: rest) = args.written [] ++ '}' :: rest := by
  obtain rfl | ⟨c, cs, notBlank, -, is⟩ := written_cases writable
  · exact trimStart_eq_self (by decide)
  · rw [is, is, List.append_assoc, List.singleton_append, trimStart_cons (by decide)]
    exact trimStart_eq_self notBlank

/-- The name of an expression ends before its arguments. -/
theorem Args.head?_written (writable : args.Writable named) :
    ∀ c ∈ (args.written [' '] ++ '}' :: rest).head?, isIdentifierChar c = false := by
  obtain rfl | ⟨c, cs, -, -, is⟩ := written_cases writable
  · rintro _ ⟨⟩
    decide
  · rw [is]
    rintro _ ⟨⟩
    decide

/-- The comma before the next argument and the blank behind the comma are passed over. -/
theorem readSeparator_written (writable : args.Writable named) :
    readSeparator (args.written [',', ' '] ++ '}' :: rest) =
      .ok (args.written [] ++ '}' :: rest) := by
  obtain rfl | ⟨c, cs, notBlank, opens, is⟩ := Args.written_cases writable
  · rfl
  · have comma : trimStart (',' :: ' ' :: c :: (cs ++ '}' :: rest)) =
        ',' :: ' ' :: c :: (cs ++ '}' :: rest) := trimStart_eq_self (by decide)
    have next : trimStart (' ' :: c :: (cs ++ '}' :: rest)) = c :: (cs ++ '}' :: rest) := by
      rw [trimStart_cons (by decide)]
      exact trimStart_eq_self notBlank
    rw [is, is]
    show readSeparator (',' :: ' ' :: c :: (cs ++ '}' :: rest)) = .ok (c :: (cs ++ '}' :: rest))
    unfold readSeparator
    simp only [comma, next]
    split
    case h_1 found => exact absurd (List.cons.inj found).1 opens
    case h_2 => rfl

/-- The opening brace and the name of an expression are read up to its arguments. -/
theorem Expression.readHead_written {e : Expression} (writable : e.Writable) :
    readHead (e.written ++ rest) =
      .ok (⟨e.head.qualifier, e.head.name, "", ""⟩, e.args.written [] ++ '}' :: rest) := by
  have text : e.written ++ rest =
      '{' :: (e.head.written ++ (e.args.written [' '] ++ '}' :: rest)) := by simp [written]
  rw [text, MarkupLoader.readHead_written writable.head (Args.head?_written rest writable.args),
    Args.trimStart_written rest writable.args]

/-- An argument with a text is read, and then the ones after it. -/
theorem readArgs_text {fuel : Nat} {key : Option String} {value : String} {others : Args}
    (place : WritablePlace named key) (later : others.Writable key.isSome) :
    readArgs (fuel + 1) named ((Args.text key value others).written [] ++ '}' :: rest) =
      (readArgs fuel key.isSome (others.written [] ++ '}' :: rest)).map fun (others, rest) =>
        (.text key value others, rest) := by
  have text : (Args.text key value others).written [] ++ '}' :: rest =
      writtenKey key ++ (quoted value ++ (others.written [',', ' '] ++ '}' :: rest)) := by
    simp [Args.written]
  have opens : OpensValue (quoted value ++ (others.written [',', ' '] ++ '}' :: rest)) := by
    rw [quoted]
    exact .quoted
  have lead := readLead_written place opens
  rw [readValue_quoted] at lead
  have order : checkOrder named (.text key value) = .ok () := checkOrder_of_place place rfl
  -- What comes does not close the expression, so an argument is read.
  obtain ⟨c, cs, is, -, goesOn⟩ := head?_writtenKey place opens
  rw [text]
  rw [is] at lead ⊢
  rw [readArgs]
  · simp only [lead, bind, Except.bind, order, readSeparator_written rest later]
    cases readArgs fuel key.isSome (others.written [] ++ '}' :: rest) <;> rfl
  · exact nofun
  · exact fun _ same => goesOn (List.cons.inj same).1

/-- An argument with an expression is read, the expression to its end, and then the ones after
it. -/
theorem readArgs_nested {fuel : Nat} {key : Option String} {head : ExpressionHead}
    {inner others : Args} (place : WritablePlace named key)
    (writable : Expression.Writable ⟨head, inner⟩) (later : others.Writable key.isSome)
    (read : ∀ rest, readArgs fuel false (inner.written [] ++ '}' :: rest) =
      .ok (inner.asRead, rest)) :
    readArgs (fuel + 1) named ((Args.nested key head inner others).written [] ++ '}' :: rest) =
      (readArgs fuel key.isSome (others.written [] ++ '}' :: rest)).map fun (others, rest) =>
        (.nested key (head.asRead inner) inner.asRead others, rest) := by
  have text : (Args.nested key head inner others).written [] ++ '}' :: rest =
      writtenKey key ++ (Expression.written ⟨head, inner⟩ ++
        (others.written [',', ' '] ++ '}' :: rest)) := by
    simp [Args.written, Expression.written]
  have opens : OpensValue (Expression.written ⟨head, inner⟩ ++
      (others.written [',', ' '] ++ '}' :: rest)) := .nested
  have lead := readLead_written place opens
  -- The brace only tells the kind: it is left to be read with the name.
  have value : readValue key (Expression.written ⟨head, inner⟩ ++
      (others.written [',', ' '] ++ '}' :: rest)) = .ok (.nested key,
        Expression.written ⟨head, inner⟩ ++ (others.written [',', ' '] ++ '}' :: rest)) := rfl
  have order : checkOrder named (.nested key) = .ok () := checkOrder_of_place place rfl
  obtain ⟨c, cs, is, -, goesOn⟩ := head?_writtenKey place opens
  rw [value] at lead
  rw [text]
  rw [is] at lead ⊢
  rw [readArgs]
  · simp only [lead, bind, Except.bind, Expression.readHead_written _ writable, read, order,
      readSeparator_written rest later, ExpressionHead.withSource_append]
    cases readArgs fuel key.isSome (others.written [] ++ '}' :: rest) <;> rfl
  · exact nofun
  · exact fun _ same => goesOn (List.cons.inj same).1

/-- **The arguments of an expression are read up to its closing brace.** The induction is on the
arguments, those of nested expressions included. -/
theorem readArgs_written (args : Args) : ∀ {fuel : Nat} {named : Bool} (rest : List Char),
    args.Writable named → (args.written []).length < fuel →
    readArgs fuel named (args.written [] ++ '}' :: rest) = .ok (args.asRead, rest) := by
  induction args with
  | nil =>
    intro fuel named rest _ enough
    obtain ⟨fuel, rfl⟩ := Nat.exists_eq_succ_of_ne_zero (Nat.ne_zero_of_lt enough)
    rfl
  | text key value others ih =>
    intro fuel named rest writable enough
    obtain ⟨fuel, rfl⟩ := Nat.exists_eq_succ_of_ne_zero (Nat.ne_zero_of_lt enough)
    have left : (others.written []).length < fuel := by
      have := others.length_written_nil_le [',', ' ']
      simp only [Args.written, quoted, List.length_append, List.length_cons] at enough
      omega
    rw [readArgs_text rest writable.1 writable.2, ih rest writable.2 left]
    rfl
  | nested key head inner others ihInner ihOthers =>
    intro fuel named rest ⟨place, name, inside, later⟩ enough
    obtain ⟨fuel, rfl⟩ := Nat.exists_eq_succ_of_ne_zero (Nat.ne_zero_of_lt enough)
    -- The braces and the name leave enough fuel for what is inside and for what comes after it.
    have left : (inner.written []).length < fuel ∧ (others.written []).length < fuel := by
      have := inner.length_written_nil_le [' ']
      have := others.length_written_nil_le [',', ' ']
      simp only [Args.written, List.length_append, List.length_cons] at enough
      omega
    rw [readArgs_nested rest place ⟨name, inside⟩ later fun rest => ihInner rest inside left.1,
      ihOthers rest later left.2]
    rfl

end Arguments

/-! ## Expressions -/

/-- **What is written as an expression is read as that expression.** The names of an expression
are texts of identifier characters, cut at the first colon; its keys are texts that a bare text
can spell; its texts are any texts. Then reading what is written gives the same names, positional
and named arguments in the same order at every depth, no namespaces, and for every expression
inside it the text written for that one as its source. -/
theorem AttributeText.read_written {e : Expression} (writable : e.Writable) :
    read (String.ofList e.written) = .ok (.expression e.asRead) := by
  have head := Expression.readHead_written [] writable
  have args : readArgs (e.args.written [] ++ ['}']).length false (e.args.written [] ++ ['}']) =
      .ok (e.args.asRead, []) := readArgs_written e.args [] writable.args (by simp)
  have source : ExpressionHead.withSource ⟨e.head.qualifier, e.head.name, "", ""⟩
      (e.written ++ []) [] = e.head.asRead e.args := ExpressionHead.withSource_append e.written []
  rw [List.append_nil] at head source
  have whole : readExpression e.written = .ok e.asRead := by
    unfold readExpression
    simp only [head, args, bind, Except.bind, source]
    rfl
  have start : trimStart e.written = e.written := trimStart_eq_self (by decide)
  unfold read
  rw [String.toList_ofList, start]
  split
  case h_1 rest found =>
    -- A closing brace cannot be the first character of a name.
    obtain ⟨c, cs, is⟩ := List.exists_cons_of_ne_nil writable.head.nonempty
    have char := writable.head.chars c (is ▸ List.mem_cons_self)
    rw [Expression.written, is] at found
    obtain rfl : c = '}' := (List.cons.inj (List.cons.inj found).2).1
    cases char
  case h_2 rest _ found =>
    rw [← found, whole]
    rfl
  case h_3 _ other => exact absurd rfl (other _)

/-- Two kinds of arguments, a nested expression, and a quote and a comma inside texts. -/
theorem AttributeText.read_written_pair :
    let e : Expression := ⟨⟨some "local", "Pair", "", ""⟩, .text none "it's"
      (.nested (some "First") ⟨none, "StaticResource", "", ""⟩ (.text none "A, b" .nil)
        (.text (some "Second") "=" .nil))⟩
    String.ofList e.written =
        "\x7blocal:Pair 'it\\'s', First=\x7bStaticResource 'A, b'\x7d, Second='='\x7d" ∧
      e.Writable ∧ read (String.ofList e.written) = .ok (.expression e.asRead) := by
  intro e
  have writable : e.Writable := by decide +kernel
  exact ⟨by decide +kernel, writable, read_written writable⟩

end MarkupLoader
