import MarkupLoader.Proofs.Locality

/-!
# Going onward

A reader does not go back, and it knows where it is by the characters that it has gone over. So each
of its parts keeps to **places that are come to** (`Cursor.Onward`): what is left when a number of
characters has been gone over, at the position behind these.

* A part that **succeeds** ends at such a place, and so does every attribute of a tag begin at one.
* A part that **fails** reports the position of such a place (`Cursor.Passes`). It may be one that has
  been handed down, such as that of the element whose end is missing; then it was come to before.

Main results: `readContent_onward`, `readContent_fault`, `NodeTree.passes_of_read_fault`.
-/

namespace MarkupLoader

open Text

/-- If a loop fails, one of its steps does. -/
theorem exists_of_mapM_error {ε α β : Type} {f : α → Except ε β} {list : List α} {e : ε}
    (failed : list.mapM f = .error e) : ∃ a ∈ list, f a = .error e := by
  induction list with
  | nil => cases failed
  | cons a rest ih =>
    rw [List.mapM_cons] at failed
    rcases error_of_bind failed with here | ⟨b, -, failed⟩
    · exact ⟨a, List.mem_cons_self, here⟩
    · rcases error_of_bind failed with later | ⟨_, -, done⟩
      · obtain ⟨x, mem, is⟩ := ih later
        exact ⟨x, List.mem_cons_of_mem _ mem, is⟩
      · cases done

/-! ## Places -/

namespace Cursor

variable {c d e : Cursor}

theorem drop_drop (c : Cursor) (m n : Nat) : (c.drop m).drop n = c.drop (m + n) := by
  unfold drop
  rw [List.drop_drop, List.take_add, Position.past_append]

theorem drop_length {w rest : List Char} (is : c.rest = w ++ rest) :
    c.drop w.length = ⟨rest, c.position.past w⟩ := by
  rw [drop, is, List.drop_left, List.take_left]

/-- A place that is come to by going over some of the characters that are left. -/
def Onward (c e : Cursor) : Prop := ∃ n, n ≤ c.rest.length ∧ e = c.drop n

/-- A position of a place that is come to. -/
def Passes (c : Cursor) (p : Position) : Prop := ∃ e, c.Onward e ∧ p = e.position

namespace Onward

theorem refl (c : Cursor) : c.Onward c := ⟨0, Nat.zero_le _, rfl⟩

theorem trans (first : c.Onward d) (second : d.Onward e) : c.Onward e := by
  obtain ⟨m, within, rfl⟩ := first
  obtain ⟨n, within', rfl⟩ := second
  refine ⟨m + n, ?_, drop_drop c m n⟩
  rw [drop, List.length_drop] at within'
  omega

/-- Nothing is left to go over behind the last character. -/
theorem drop (c : Cursor) (n : Nat) : c.Onward (c.drop n) := by
  rcases Nat.le_total n c.rest.length with within | beyond
  · exact ⟨n, within, rfl⟩
  · refine ⟨c.rest.length, Nat.le_refl _, ?_⟩
    simp [Cursor.drop, List.drop_eq_nil_of_le beyond, List.take_of_length_le beyond]

theorem of_append {w rest : List Char} (is : c.rest = w ++ rest) :
    c.Onward ⟨rest, c.position.past w⟩ := drop_length is ▸ Onward.drop c w.length

theorem suffix (onward : c.Onward e) : e.rest <:+ c.rest := by
  obtain ⟨n, -, rfl⟩ := onward
  exact drop_suffix c n

theorem span (c : Cursor) (p : Char → Bool) : c.Onward (c.span p).2 :=
  of_append (span_fst_append c p).symm

theorem skipBlanks (c : Cursor) : c.Onward c.skipBlanks := span c _

theorem readName (c : Cursor) : c.Onward c.readName.2 := span c _

theorem expect {wanted : Char} (ok : c.expect wanted = .ok e) : c.Onward e := by
  obtain ⟨-, rfl⟩ := expect_eq_ok_iff.1 ok
  exact drop c 1

theorem through {mark : String} {before : List Char} (ok : c.through mark = .ok (before, e)) :
    c.Onward e := by
  obtain ⟨cut, place⟩ := through_eq_ok_iff.1 ok
  have onward := of_append ((eq_of_cutAt? cut).trans (List.append_assoc _ _ _).symm)
  rwa [← place] at onward

theorem passes {p : Position} (onward : c.Onward e) (passes : e.Passes p) : c.Passes p := by
  obtain ⟨last, onward', is⟩ := passes
  exact ⟨last, onward.trans onward', is⟩

end Onward

theorem passes_self (c : Cursor) : c.Passes c.position := ⟨c, .refl c, rfl⟩

theorem Passes.of_eq {p : Position} (is : p = c.position) : c.Passes p := ⟨c, .refl c, is⟩

/-! ## Marks -/

variable {fault : FaultAt}

theorem fault_of_expect {wanted : Char} (failed : c.expect wanted = .error fault) :
    fault.position = c.position := by
  unfold expect at failed
  split at failed <;> cases failed
  rfl

theorem fault_of_through {mark : String} (failed : c.through mark = .error fault) :
    fault.position = c.position := by
  unfold through at failed
  split at failed <;> cases failed
  rfl

end Cursor

/-! ## Names and values -/

section Meaning

variable {scopes : Scopes} {outermost : Bool} {p : Position} {fault : FaultAt}

theorem fault_of_decodeAt {text : List Char} (failed : decodeAt p text = .error fault) :
    fault.position = p := by
  unfold decodeAt at failed
  split at failed <;> cases failed
  rfl

theorem fault_of_namespaceAt {qualifier : Option String}
    (failed : namespaceAt scopes p qualifier = .error fault) : fault.position = p := by
  unfold namespaceAt at failed
  split at failed <;> cases failed
  rfl

theorem fault_of_readTypeArguments {value : String}
    (failed : readTypeArguments scopes p value = .error fault) : fault.position = p := by
  obtain ⟨written, -, failed⟩ := exists_of_mapM_error failed
  generalize splitQualified (trimmed written) = parts at failed
  rcases error_of_bind failed with unknown | ⟨_, -, done⟩
  · exact fault_of_namespaceAt unknown
  · cases done

/-- What is wrong with what an attribute means is reported at the attribute. -/
theorem RawAttribute.fault_of_contribution {a : RawAttribute}
    (failed : a.contribution scopes outermost = .error fault) : fault.position = a.position := by
  -- Two attributes have values of their own grammar: a list of prefixes and one of type arguments.
  have meant {localName uri : String} (failed : a.meant scopes outermost localName uri =
      .error fault) : fault.position = a.position := by
    unfold RawAttribute.meant at failed
    split at failed
    · split at failed
      · rcases error_of_bind failed with unknown | ⟨_, -, done⟩
        · obtain ⟨_, -, unknown⟩ := exists_of_mapM_error unknown
          exact fault_of_namespaceAt unknown
        · cases done
      · cases failed
    · dsimp only at failed
      split at failed
      · rcases error_of_bind failed with unread | ⟨_, -, done⟩
        · exact fault_of_readTypeArguments unread
        · cases done
      · cases failed
  rw [contribution_eq] at failed
  split at failed
  · cases failed
  split at failed
  · exact meant failed
  · rcases error_of_bind failed with unknown | ⟨_, -, failed⟩
    · exact fault_of_namespaceAt unknown
    · exact meant failed

/-- What is wrong with what a tag means is reported at the tag or at one of its attributes. -/
theorem StartTag.fault_of_body {t : StartTag} (failed : t.body scopes outermost = .error fault) :
    fault.position = t.position ∨ ∃ a ∈ t.attributes, fault.position = a.position := by
  unfold body at failed
  generalize splitQualified t.written = parts at failed
  rcases error_of_bind failed with unknown | ⟨_, -, failed⟩
  · exact .inl (fault_of_namespaceAt unknown)
  rcases error_of_bind failed with wrong | ⟨_, -, done⟩
  · obtain ⟨a, mem, wrong⟩ := exists_of_mapM_error wrong
    exact .inr ⟨a, mem, RawAttribute.fault_of_contribution wrong⟩
  · cases done

end Meaning

/-! ## Tags -/

section Tags

variable {c e : Cursor} {fault : FaultAt}

namespace RawAttribute

theorem read_onward {a : RawAttribute} (ok : read c = .ok (a, e)) : c.Onward e := by
  obtain ⟨sign, decoded, -, expected, -, -, -, -, rfl⟩ := read_eq_ok_iff.1 ok
  -- The name, the sign and the quote with the blanks before them, and then the value and its end.
  have atSign := (Cursor.Onward.readName c).trans (.skipBlanks _)
  have atQuote := (atSign.trans (.expect expected)).trans (.skipBlanks _)
  exact ((atQuote.trans (.drop _ 1)).trans (.span _ _)).trans (.drop _ 1)

/-- An attribute stands where it was read. -/
theorem position_of_read {a : RawAttribute} (ok : read c = .ok (a, e)) :
    a.position = c.position ∧ a.written = c.readName.1 ∧ a.written.isEmpty = false := by
  obtain ⟨_, _, named, -, -, -, -, rfl, -⟩ := read_eq_ok_iff.1 ok
  exact ⟨rfl, rfl, named⟩

theorem read_fault (failed : read c = .error fault) : c.Passes fault.position := by
  unfold read at failed
  simp only [bind, Except.bind, pure, Except.pure] at failed
  have atSign := (Cursor.Onward.readName c).trans (.skipBlanks _)
  split at failed
  · cases failed
    exact c.passes_self
  split at failed
  case h_1 missing =>
    cases failed
    exact atSign.passes (.of_eq (Cursor.fault_of_expect missing))
  case h_2 sign expected =>
    have atQuote := (atSign.trans (.expect expected)).trans (.skipBlanks _)
    split at failed
    · cases failed
      exact atQuote.passes (Cursor.passes_self _)
    -- Faults in the value are reported where the attribute begins.
    split at failed
    · cases failed
      exact c.passes_self
    split at failed
    case h_1 undecoded =>
      cases failed
      exact .of_eq (fault_of_decodeAt undecoded)
    case h_2 => cases failed

/-- Attributes that are read one after the other are read at places that are come to. -/
theorem readAll_onward {tag : String} {opened : Position} {fuel : Nat}
    {seen attributes : List RawAttribute}
    (ok : readAll tag opened fuel seen c = .ok (attributes, e)) : c.Onward e ∧
      ∀ a ∈ attributes, a ∈ seen ∨ ∃ x after, c.Onward x ∧ read x = .ok (a, after) := by
  induction fuel generalizing seen c with
  | zero => cases ok
  | succ fuel ih =>
    rw [readAll] at ok
    dsimp only at ok
    have blanks := Cursor.Onward.skipBlanks c
    split at ok
    · cases ok
    split at ok
    · cases ok
      exact ⟨blanks, fun a mem => .inl mem⟩
    obtain ⟨⟨next, after⟩, reads, ok⟩ := ok_of_bind ok
    dsimp only at ok
    split at ok
    · cases ok
    have onward := blanks.trans (read_onward reads)
    obtain ⟨last, each⟩ := ih ok
    refine ⟨onward.trans last, fun a mem => ?_⟩
    -- The attribute that was read here is among those that the rest of the loop begins with.
    rcases each a mem with before | ⟨x, end_, later, there⟩
    · rcases List.mem_append.1 before with before | here
      · exact .inl before
      · rw [List.mem_singleton.1 here]
        exact .inr ⟨_, after, blanks, reads⟩
    · exact .inr ⟨x, end_, onward.trans later, there⟩

theorem readAll_fault {origin : Cursor} {tag : String} {opened : Position}
    (passed : origin.Passes opened) {fuel : Nat} {seen : List RawAttribute}
    (onward : origin.Onward c) (failed : readAll tag opened fuel seen c = .error fault) :
    origin.Passes fault.position := by
  induction fuel generalizing seen c with
  | zero =>
    cases failed
    exact passed
  | succ fuel ih =>
    rw [readAll] at failed
    dsimp only at failed
    have blanks := onward.trans (.skipBlanks c)
    split at failed
    · cases failed
      exact passed
    split at failed
    · cases failed
    rcases error_of_bind failed with wrong | ⟨⟨next, after⟩, reads, failed⟩
    · exact blanks.passes (read_fault wrong)
    dsimp only at failed
    split at failed
    · cases failed
      exact blanks.passes (.of_eq (position_of_read reads).1)
    · exact ih (blanks.trans (read_onward reads)) failed

end RawAttribute

namespace StartTag

theorem read_onward {t : StartTag} (ok : read c = .ok (t, e)) : c.Onward e := by
  obtain ⟨attributes, last, -, reads, -, rfl⟩ := read_eq_ok_iff.1 ok
  have name := (Cursor.Onward.drop c 1).trans (.readName _)
  exact (name.trans (RawAttribute.readAll_onward reads).1).trans (.drop _ _)

/-- The name of a tag is read behind its bracket. -/
theorem written_of_read {t : StartTag} (ok : read c = .ok (t, e)) :
    t.written = (c.drop 1).readName.1 ∧ t.written.isEmpty = false := by
  obtain ⟨attributes, last, named, -, rfl, -⟩ := read_eq_ok_iff.1 ok
  exact ⟨rfl, named⟩

/-- A tag stands where it was read, and so do its attributes, which are behind its bracket. -/
theorem places_of_read {t : StartTag} (ok : read c = .ok (t, e)) : t.position = c.position ∧
    ∀ a ∈ t.attributes, ∃ x after, (c.drop 1).Onward x ∧ RawAttribute.read x = .ok (a, after) := by
  obtain ⟨attributes, last, -, reads, rfl, -⟩ := read_eq_ok_iff.1 ok
  refine ⟨rfl, fun a mem => ?_⟩
  rcases (RawAttribute.readAll_onward reads).2 a mem with none | ⟨x, after, onward, there⟩
  · cases none
  · exact ⟨x, after, (Cursor.Onward.readName _).trans onward, there⟩

theorem read_fault (failed : read c = .error fault) : c.Passes fault.position := by
  unfold read at failed
  simp only [bind, Except.bind, pure, Except.pure] at failed
  split at failed
  · cases failed
    exact c.passes_self
  split at failed
  case h_1 wrong =>
    cases failed
    exact RawAttribute.readAll_fault c.passes_self
      ((Cursor.Onward.drop c 1).trans (.readName _)) wrong
  case h_2 => cases failed

end StartTag

theorem readOpenTag_fault {scopes : Scopes} {outermost : Bool}
    (failed : readOpenTag scopes outermost c = .error fault) : c.Passes fault.position := by
  rcases error_of_bind failed with wrong | ⟨⟨tag, after⟩, read, failed⟩
  · exact StartTag.read_fault wrong
  obtain ⟨here, each⟩ := StartTag.places_of_read read
  rcases error_of_bind failed with unmeant | ⟨_, -, done⟩
  · rcases StartTag.fault_of_body unmeant with is | ⟨a, mem, is⟩
    · exact .of_eq (is.trans here)
    · -- The attribute was read inside the tag, and there it is reported.
      obtain ⟨x, end_, onward, reads⟩ := each a mem
      refine ((Cursor.Onward.drop c 1).trans onward).passes (.of_eq ?_)
      exact is.trans (RawAttribute.position_of_read reads).1
  · cases done

theorem readOpenTag_onward {scopes : Scopes} {outermost : Bool} {o : OpenTag}
    (ok : readOpenTag scopes outermost c = .ok (o, e)) : c.Onward e :=
  StartTag.read_onward (readOpenTag_eq_ok_iff.1 ok).1

end Tags

/-! ## Content -/

section Content

variable {c e origin : Cursor} {fault : FaultAt}

theorem readEndTag_onward {opened : String} (ok : readEndTag opened c = .ok e) : c.Onward e := by
  obtain ⟨-, expected⟩ := readEndTag_eq_ok_iff.1 ok
  have name := (Cursor.Onward.drop c 2).trans (.readName _)
  exact (name.trans (.skipBlanks _)).trans (.expect expected)

theorem readEndTag_fault {opened : String} (failed : readEndTag opened c = .error fault) :
    c.Passes fault.position := by
  unfold readEndTag at failed
  simp only [bind, Except.bind] at failed
  have name := (Cursor.Onward.drop c 2).trans (.readName _)
  split at failed
  · cases failed
    exact c.passes_self
  · exact (name.trans (.skipBlanks _)).passes (.of_eq (Cursor.fault_of_expect failed))

theorem readCharacterData_onward {n : NodeBody} (ok : readCharacterData c = .ok (n, e)) :
    c.Onward e := by
  obtain ⟨text, through, -⟩ := readCharacterData_eq_ok_iff.1 ok
  exact (Cursor.Onward.drop c _).trans (.through through)

/-- A section without an end is reported at the end of the text. -/
theorem readCharacterData_fault (failed : readCharacterData c = .error fault) :
    c.Passes fault.position := by
  unfold readCharacterData at failed
  dsimp only at failed
  split at failed <;> cases failed
  exact ((Cursor.Onward.drop c _).trans (.drop _ _)).passes (Cursor.passes_self _)

theorem readText_onward {n : Option NodeBody} (ok : readText c = .ok (n, e)) : c.Onward e := by
  obtain ⟨rfl, -⟩ := readText_eq_ok_iff.1 ok
  exact .span c _

theorem readText_fault (failed : readText c = .error fault) : c.Passes fault.position := by
  unfold readText at failed
  dsimp only at failed
  split at failed
  · cases failed
  rcases error_of_bind failed with undecoded | ⟨_, -, done⟩
  · exact .of_eq (fault_of_decodeAt undecoded)
  · cases done

/-- Content is read up to the place of its end tag. -/
theorem exists_ending_of_readContent {tag : StartTag} {scopes : Scopes} {fuel : Nat} {f : Forest}
    (ok : readContent tag scopes fuel c = .ok (f, e)) :
    ∃ last, c.Onward last ∧ pieceAt last = .ending ∧ readEndTag tag.written last = .ok e := by
  induction fuel generalizing tag scopes c e f with
  | zero => cases ok
  | succ fuel ih =>
    have goesOn {after : Cursor} {f : Forest} (further : c.Onward after)
        (rest : readContent tag scopes fuel after = .ok (f, e)) :
        ∃ last, c.Onward last ∧ pieceAt last = .ending ∧ readEndTag tag.written last = .ok e := by
      obtain ⟨last, onward, ended⟩ := ih rest
      exact ⟨last, further.trans onward, ended⟩
    obtain ⟨-, reads⟩ := readContent_eq_ok_iff.1 ok
    cases reads with
    | ending piece ended => exact ⟨c, .refl c, piece, ended⟩
    | passed _ through rest => exact goesOn (.through through) rest
    | characterData _ taken rest => exact goesOn (readCharacterData_onward taken) rest
    | blank _ taken rest | text _ taken rest => exact goesOn (readText_onward taken) rest
    | element _ opened below rest =>
      have further := readOpenTag_onward opened
      split at below
      · cases below
        exact goesOn further rest
      · obtain ⟨last, onward, -, ended⟩ := ih below
        exact goesOn ((further.trans onward).trans (readEndTag_onward ended)) rest

/-- Content ends at a place that is come to. -/
theorem readContent_onward {tag : StartTag} {scopes : Scopes} {fuel : Nat} {f : Forest}
    (ok : readContent tag scopes fuel c = .ok (f, e)) : c.Onward e := by
  obtain ⟨last, onward, -, ended⟩ := exists_ending_of_readContent ok
  exact onward.trans (readEndTag_onward ended)

/-- **Content that cannot be read** is reported at a place that is come to, if its element is at one. -/
theorem readContent_fault {tag : StartTag} {scopes : Scopes} {fuel : Nat}
    (onward : origin.Onward c) (opened : origin.Passes tag.position)
    (failed : readContent tag scopes fuel c = .error fault) : origin.Passes fault.position := by
  induction fuel generalizing tag scopes c with
  | zero =>
    cases failed
    exact opened
  | succ fuel ih =>
    -- What has been read by then has been gone over.
    have goesOn {after : Cursor} (further : c.Onward after)
        (failed : readContent tag scopes fuel after = .error fault) : origin.Passes fault.position :=
      ih (onward.trans further) opened failed
    have node {n : NodeBody} {children : Forest} {after : Cursor} (further : c.Onward after)
        (failed : (readContent tag scopes fuel after >>= fun found =>
          .ok (Forest.cons n children found.1, found.2)) = .error fault) :
        origin.Passes fault.position := by
      rcases error_of_bind failed with failed | ⟨_, -, done⟩
      · exact goesOn further failed
      · cases done
    rw [readContent] at failed
    split at failed
    · -- The text has ended, and what is reported is the element that is open.
      cases failed
      exact opened
    split at failed
    case h_1 =>
      rcases error_of_bind failed with unended | ⟨_, -, done⟩
      · exact onward.passes (readEndTag_fault unended)
      · cases done
    case h_2 | h_3 =>
      rcases error_of_bind failed with endless | ⟨⟨_, after⟩, through, failed⟩
      · exact onward.passes (.of_eq (Cursor.fault_of_through endless))
      · exact goesOn (.through through) failed
    case h_4 =>
      rcases error_of_bind failed with endless | ⟨⟨n, after⟩, taken, failed⟩
      · exact onward.passes (readCharacterData_fault endless)
      · exact node (readCharacterData_onward taken) failed
    case h_5 =>
      rcases error_of_bind failed with undecoded | ⟨⟨kept, after⟩, taken, failed⟩
      · exact onward.passes (readText_fault undecoded)
      · cases kept with
        | none => exact goesOn (readText_onward taken) failed
        | some n => exact node (readText_onward taken) failed
    case h_6 =>
      rcases error_of_bind failed with wrong | ⟨⟨inner, inside⟩, opens, failed⟩
      · exact onward.passes (readOpenTag_fault wrong)
      have further := readOpenTag_onward opens
      -- From here on it is the inner element that a missing end is reported at.
      have placed : origin.Passes inner.tag.position := by
        have here := (StartTag.places_of_read (readOpenTag_eq_ok_iff.1 opens).1).1
        exact onward.passes (.of_eq here)
      dsimp only at failed
      split at failed
      · rcases error_of_bind failed with none | ⟨⟨children, after⟩, below, failed⟩
        · cases none
        · cases below
          exact node further failed
      · rcases error_of_bind failed with inner' | ⟨⟨children, after⟩, below, failed⟩
        · exact ih (onward.trans further) placed inner'
        · exact node (further.trans (readContent_onward below)) failed

/-! ## Documents -/

/-- A bracket stands where the first tag begins. -/
theorem readPrologue_onward {fuel : Nat} (ok : readPrologue fuel c = .ok e) :
    c.Onward e ∧ e.startsWith "<" = true := by
  induction fuel generalizing c with
  | zero => cases ok
  | succ fuel ih =>
    have blanks := Cursor.Onward.skipBlanks c
    have goesOn {after : Cursor} (further : c.skipBlanks.Onward after)
        (ok : readPrologue fuel after = .ok e) : c.Onward e ∧ e.startsWith "<" = true := by
      obtain ⟨onward, bracket⟩ := ih ok
      exact ⟨(blanks.trans further).trans onward, bracket⟩
    obtain ⟨-, reads⟩ := readPrologue_eq_ok_iff.1 ok
    cases reads with
    | passed _ through rest => exact goesOn (.through through) rest
    | tag bracket _ _ here => exact here ▸ ⟨blanks, bracket⟩
    | stray _ rest => exact goesOn (.span _ _) rest

theorem readPrologue_fault {fuel : Nat} (failed : readPrologue fuel c = .error fault) :
    c.Passes fault.position := by
  induction fuel generalizing c with
  | zero =>
    cases failed
    exact c.passes_self
  | succ fuel ih =>
    have blanks := Cursor.Onward.skipBlanks c
    have through {mark : String}
        (failed : (do readPrologue fuel (← c.skipBlanks.through mark).2) = .error fault) :
        c.Passes fault.position := by
      rcases error_of_bind failed with endless | ⟨⟨_, after⟩, through, failed⟩
      · exact blanks.passes (.of_eq (Cursor.fault_of_through endless))
      · exact (blanks.trans (.through through)).passes (ih failed)
    rw [readPrologue] at failed
    split at failed
    · cases failed
      exact blanks.passes (Cursor.passes_self _)
    split at failed
    · exact through failed
    split at failed
    · exact through failed
    split at failed
    · exact through failed
    split at failed
    · cases failed
    · exact (blanks.trans (.span _ _)).passes (ih failed)

/-- **A text that is no document** is reported at a place of the text. -/
theorem NodeTree.passes_of_read_fault {text : String}
    (failed : NodeTree.read text = .error fault) : (Cursor.ofText text).Passes fault.position := by
  rcases error_of_bind failed with none | ⟨start, prologue, failed⟩
  · exact readPrologue_fault none
  obtain ⟨onward, -⟩ := readPrologue_onward prologue
  rcases error_of_bind failed with wrong | ⟨⟨outer, inside⟩, opened, failed⟩
  · exact onward.passes (readOpenTag_fault wrong)
  -- The outermost element was come to, so it may be reported as the one without an end.
  have here := (StartTag.places_of_read (readOpenTag_eq_ok_iff.1 opened).1).1
  dsimp only at failed
  split at failed
  · cases failed
  · rcases error_of_bind failed with unread | ⟨_, -, done⟩
    · exact readContent_fault (onward.trans (readOpenTag_onward opened))
        (onward.passes (.of_eq here)) unread
    · cases done

end Content

end MarkupLoader
