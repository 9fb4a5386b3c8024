import MarkupLoader.Expression.Reader
import MarkupLoader.Proofs.Failing
import MarkupLoader.Load.Extension

/-!
# What checking an expression promises

Checking an expression goes from the outside inward and only looks names up; evaluating it asks the
extensions of the inner calls before those around them. **A checked expression fails only where an
extension gives no value**, and of the calls that fail it is the first one whose reason is reported.

* **The calls of an expression** (`Expression.calls`) are listed as they are evaluated: those of its
  positional arguments, those of its named arguments, then the call itself.
* Positional arguments stand before named ones in every expression that is read
  (`Expression.inOrder`); then the order of the calls is the written one.
* **A call is refused** (`Extensions.Refuses`) if its arguments have values and its extension gives
  none.

Main result: `Extensions.evaluate_of_check`.
-/

namespace MarkupLoader

/-! ## The calls of an expression -/

namespace Args

/-- Whether at every depth no positional argument follows a named one; `named` tells whether one
of the arguments before was named. -/
def inOrder : Bool → Args → Bool
  | _, nil => true
  | named, text key _ others => (!named || key.isSome) && others.inOrder key.isSome
  | named, nested key _ inner others =>
    (!named || key.isSome) && inner.inOrder false && others.inOrder key.isSome

/-- The calls in the positional arguments, or in the named ones. -/
def callsOf : Bool → Args → List Expression
  | _, nil => []
  | named, text _ _ others => others.callsOf named
  | named, nested key head inner others =>
    (if key.isSome = named then inner.callsOf false ++ inner.callsOf true ++ [⟨head, inner⟩]
      else []) ++ others.callsOf named

/-- The calls in the arguments, those in the positional ones first. -/
def calls (args : Args) : List Expression := args.callsOf false ++ args.callsOf true

end Args

namespace Expression

/-- Whether at every depth no positional argument follows a named one. -/
def inOrder (x : Expression) : Bool := x.args.inOrder false

/-- The calls that an expression is made of, each one after the calls in its arguments. -/
def calls (x : Expression) : List Expression := x.args.calls ++ [x]

end Expression

namespace Args

variable {named : Bool} {key : Option String} {value : String} {head : ExpressionHead}
  {inner others : Args}

/-- Only named arguments follow a named one. -/
theorem callsOf_after_named : ∀ args : Args, args.inOrder true → args.callsOf false = []
  | nil, _ => rfl
  | text key value others, ordered => by
    simp only [inOrder, Bool.not_true, Bool.false_or, Bool.and_eq_true] at ordered
    rw [callsOf, callsOf_after_named others (ordered.1 ▸ ordered.2)]
  | nested key head inner others, ordered => by
    simp only [inOrder, Bool.not_true, Bool.false_or, Bool.and_eq_true] at ordered
    obtain ⟨⟨isNamed, -⟩, later⟩ := ordered
    rw [callsOf, callsOf_after_named others (isNamed ▸ later), isNamed]
    rfl

theorem calls_text : (text key value others).calls = others.calls := rfl

/-- In arguments that are in order, the calls of a nested expression come before those of the
arguments behind it. -/
theorem calls_nested (ordered : (nested key head inner others).inOrder named) :
    (nested key head inner others).calls = Expression.calls ⟨head, inner⟩ ++ others.calls := by
  simp only [inOrder, Bool.and_eq_true] at ordered
  cases key with
  | none => simp [calls, callsOf, Expression.calls]
  | some key =>
    have last : others.callsOf false = [] := callsOf_after_named others ordered.2
    simp [calls, callsOf, Expression.calls, last]

theorem inOrder_text (ordered : (text key value others).inOrder named) :
    others.inOrder key.isSome := by
  simp only [inOrder, Bool.and_eq_true] at ordered
  exact ordered.2

theorem inOrder_nested (ordered : (nested key head inner others).inOrder named) :
    inner.inOrder false ∧ others.inOrder key.isSome := by
  simp only [inOrder, Bool.and_eq_true] at ordered
  exact ⟨ordered.1.2, ordered.2⟩

/-- Looking namespaces up keeps the order of the arguments. -/
theorem inOrder_lookUp (declared : String → Option String) (args : Args) :
    ∀ named, (args.lookUp declared).1.inOrder named = args.inOrder named := by
  induction args with
  | nil => exact fun named => rfl
  | text key value others ih =>
    intro named
    simp only [lookUp, inOrder, ih]
  | nested key head inner others inside later =>
    intro named
    cases found : declared head.prefixKey with
    | none => simp only [lookUp, found]
    | some uri =>
      -- The arguments behind are only gone over if no prefix inside is undeclared.
      rcases looked : inner.lookUp declared with ⟨inner', missing⟩
      rw [looked] at inside
      cases missing with
      | some undeclared => simp only [lookUp, found, looked, inOrder, inside]
      | none => simp only [lookUp, found, looked, inOrder, inside, later]

end Args

/-! ## Reading -/

/-- Arguments go on before a text that begins with anything but the closing brace. -/
def GoesOn (s : List Char) : Prop := ∃ c ∈ s.head?, c ≠ '}'

/-- What comes next where arguments are read, and what it is read as with all that follows. -/
inductive ReadsArgs (fuel : Nat) (named : Bool) : List Char → Args → List Char → Prop
  | ending (rest : List Char) : ReadsArgs fuel named ('}' :: rest) .nil rest
  | text {s after next rest : List Char} {key : Option String} {value : String} {others : Args}
    (goesOn : GoesOn s) (lead : readLead s = .ok (.text key value, after))
    (place : checkOrder named (.text key value) = .ok ()) (separator : readSeparator after = .ok next)
    (later : readArgs fuel key.isSome next = .ok (others, rest)) :
    ReadsArgs fuel named s (.text key value others) rest
  | nested {s after inside closed next rest : List Char} {key : Option String}
    {head : ExpressionHead} {inner others : Args} (goesOn : GoesOn s)
    (lead : readLead s = .ok (.nested key, after)) (name : readHead after = .ok (head, inside))
    (within : readArgs fuel false inside = .ok (inner, closed))
    (place : checkOrder named (.nested key) = .ok ()) (separator : readSeparator closed = .ok next)
    (later : readArgs fuel key.isSome next = .ok (others, rest)) :
    ReadsArgs fuel named s (.nested key (head.withSource after closed) inner others) rest

theorem readArgs_eq_ok_iff {fuel : Nat} {named : Bool} {s rest : List Char} {args : Args} :
    readArgs (fuel + 1) named s = .ok (args, rest) ↔ ReadsArgs fuel named s args rest := by
  constructor
  · intro read
    unfold readArgs at read
    split at read
    · cases read
    · cases read
      exact .ending _
    case h_3 nonempty open_ =>
    have goesOn : GoesOn s := by
      cases s with
      | nil => exact absurd rfl nonempty
      | cons c s => exact ⟨c, rfl, fun is => open_ s (is ▸ rfl)⟩
    obtain ⟨⟨lead, after⟩, isLead, read⟩ := ok_of_bind read
    cases lead with
    | text key value =>
      obtain ⟨_, place, read⟩ := ok_of_bind read
      obtain ⟨next, separator, read⟩ := ok_of_bind read
      obtain ⟨⟨others, rest'⟩, later, read⟩ := ok_of_bind read
      cases read
      exact .text goesOn isLead place separator later
    | nested key =>
      obtain ⟨⟨head, inside⟩, name, read⟩ := ok_of_bind read
      obtain ⟨⟨inner, closed⟩, within, read⟩ := ok_of_bind read
      obtain ⟨_, place, read⟩ := ok_of_bind read
      obtain ⟨next, separator, read⟩ := ok_of_bind read
      obtain ⟨⟨others, rest'⟩, later, read⟩ := ok_of_bind read
      cases read
      exact .nested goesOn isLead name within place separator later
  · have opens : ∀ {s}, GoesOn s → s ≠ [] ∧ ∀ rest, s ≠ '}' :: rest := by
      rintro s ⟨c, first, other⟩
      refine ⟨?_, ?_⟩
      · rintro rfl
        cases first
      · rintro rest rfl
        exact other (Option.some.inj first).symm
    intro reads
    cases reads with
    | ending => rfl
    | text goesOn lead place separator later =>
      rw [readArgs]
      · simp only [lead, place, separator, later, bind, Except.bind]
        rfl
      · exact (opens goesOn).1
      · exact (opens goesOn).2
    | nested goesOn lead name within place separator later =>
      rw [readArgs]
      · simp only [lead, name, within, place, separator, later, bind, Except.bind]
        rfl
      · exact (opens goesOn).1
      · exact (opens goesOn).2

/-- Arguments that are read are in order. -/
theorem inOrder_of_readArgs {fuel : Nat} {named : Bool} {s rest : List Char} {args : Args}
    (read : readArgs fuel named s = .ok (args, rest)) : args.inOrder named := by
  have placed : ∀ {named : Bool} {lead : Lead}, checkOrder named lead = .ok () →
      (!named || lead.key.isSome) = true := by
    intro named lead held
    unfold checkOrder at held
    cases named with
    | false => rfl
    | true =>
      cases key : lead.key with
      | none => rw [key] at held; cases held
      | some key => rfl
  induction fuel generalizing named s rest args with
  | zero => cases read
  | succ fuel ih =>
    cases readArgs_eq_ok_iff.1 read with
    | ending => cases named <;> rfl
    | text _ _ place _ later =>
      rw [Args.inOrder, ih later, Bool.and_true]
      exact placed place
    | nested _ _ _ within place _ later =>
      rw [Args.inOrder, ih within, ih later, Bool.and_true, Bool.and_true]
      exact placed place

/-- A text that is read as an expression begins with the brace of the expression, behind blanks. -/
theorem AttributeText.exists_of_read {text : String} {x : Expression}
    (read : AttributeText.read text = .ok (.expression x)) :
    ∃ rest head inside args closed, Text.trimStart text.toList = '{' :: rest ∧
      readHead ('{' :: rest) = .ok (head, inside) ∧
      readArgs inside.length false inside = .ok (args, closed) ∧
      x = ⟨head.withSource ('{' :: rest) closed, args⟩ := by
  unfold AttributeText.read at read
  split at read
  · cases read
  case h_2 rest _ begins =>
    obtain ⟨y, parsed, same⟩ := ok_of_map read
    obtain rfl := AttributeText.expression.inj same
    unfold readExpression at parsed
    obtain ⟨⟨head, inside⟩, name, parsed⟩ := ok_of_bind parsed
    obtain ⟨⟨args, closed⟩, within, parsed⟩ := ok_of_bind parsed
    dsimp only at parsed
    split at parsed
    · cases parsed
      exact ⟨rest, head, inside, args, closed, begins, name, within, rfl⟩
    · cases parsed
  · cases read

/-- The arguments of an expression that is read are in order. -/
theorem AttributeText.inOrder_of_read {text : String} {x : Expression}
    (read : AttributeText.read text = .ok (.expression x)) : x.inOrder := by
  obtain ⟨_, _, _, _, _, -, -, within, rfl⟩ := exists_of_read read
  exact inOrder_of_readArgs within

/-! ## Checking -/

namespace Extensions

variable {e : Extensions} {site : Site}

theorem checkName_eq_ok_iff {name : QName} :
    e.checkName name = .ok () ↔ ∃ extension, e.get? name = some extension := by
  unfold checkName
  cases e.get? name with
  | none => simp
  | some extension => simp

theorem lookUp_eq_ok_iff {head : ExpressionHead} {extension : Extension} :
    e.lookUp head = .ok extension ↔ e.get? head.extensionName = some extension := by
  unfold lookUp
  cases e.get? head.extensionName with
  | none => simp
  | some other => simp

theorem check_eq_ok_iff {x : Expression} :
    e.check x = .ok () ↔
      (∃ extension, e.lookUp x.head = .ok extension) ∧ e.checkArgs x.args = .ok () := by
  simp only [lookUp_eq_ok_iff]
  rw [← checkName_eq_ok_iff]
  unfold check
  constructor
  · intro checked
    obtain ⟨_, found, inside⟩ := ok_of_bind checked
    exact ⟨found, inside⟩
  · rintro ⟨found, inside⟩
    rw [found]
    exact inside

theorem checkArgs_nested {key : Option String} {head : ExpressionHead} {inner others : Args} :
    e.checkArgs (.nested key head inner others) = .ok () ↔
      e.check ⟨head, inner⟩ = .ok () ∧ e.checkArgs others = .ok () := by
  rw [checkArgs, check]
  constructor
  · intro checked
    obtain ⟨_, found, checked⟩ := ok_of_bind checked
    obtain ⟨_, inside, later⟩ := ok_of_bind checked
    refine ⟨?_, later⟩
    rw [found]
    exact inside
  · rintro ⟨checked, later⟩
    obtain ⟨_, found, inside⟩ := ok_of_bind checked
    dsimp only at inside
    rw [found]
    show (e.checkArgs inner >>= fun _ => e.checkArgs others) = .ok ()
    rw [inside]
    exact later

/-! ## Evaluating -/

/-- The value of a nested argument is that of its expression. -/
theorem evaluateArgs_nested (key : Option String) (head : ExpressionHead) (inner others : Args) :
    e.evaluateArgs site.services (.nested key head inner others) = (do
      let value ← e.evaluate site ⟨head, inner⟩
      let others ← e.evaluateArgs site.services others
      return .cons key value others) := by
  rw [evaluateArgs, evaluate]
  cases e.lookUp head with
  | error fault => rfl
  | ok extension =>
    show (e.evaluateArgs site.services inner >>= _) =
      (e.evaluateArgs site.services inner >>= _) >>= _
    cases e.evaluateArgs site.services inner with
    | error fault => rfl
    | ok arguments => rfl

theorem evaluate_eq_ok_iff {x : Expression} {value : Value} :
    e.evaluate site x = .ok value ↔ ∃ extension arguments,
      e.lookUp x.head = .ok extension ∧ e.evaluateArgs site.services x.args = .ok arguments ∧
      extension arguments site.services = .ok value := by
  unfold evaluate
  constructor
  · intro evaluated
    obtain ⟨extension, found, evaluated⟩ := ok_of_bind evaluated
    obtain ⟨arguments, given, asked⟩ := ok_of_bind evaluated
    exact ⟨extension, arguments, found, given, ok_of_mapError asked⟩
  · rintro ⟨extension, arguments, found, given, asked⟩
    rw [found]
    show (e.evaluateArgs site.services x.args >>= fun given =>
      ask extension given site.services) = .ok value
    rw [given]
    show ask extension arguments site.services = .ok value
    rw [ask, asked]
    rfl

/-! ## Success -/

/-- Whether every known extension has a value for all arguments at all places. -/
def Total (e : Extensions) : Prop :=
  ∀ name extension, e.get? name = some extension →
    ∀ arguments services, ∃ value, extension arguments services = .ok value

theorem checkArgs_of_evaluateArgs : ∀ {args : Args} {arguments : Arguments},
    e.evaluateArgs site.services args = .ok arguments → e.checkArgs args = .ok () := by
  intro args
  induction args with
  | nil => exact fun _ => rfl
  | text key value others ih =>
    intro arguments evaluated
    obtain ⟨_, later, -⟩ := ok_of_bind (by rw [evaluateArgs] at evaluated; exact evaluated)
    exact ih later
  | nested key head inner others inside behind =>
    intro arguments evaluated
    rw [evaluateArgs_nested] at evaluated
    obtain ⟨value, own, evaluated⟩ := ok_of_bind evaluated
    obtain ⟨_, later, -⟩ := ok_of_bind evaluated
    obtain ⟨extension, given, found, within, -⟩ := evaluate_eq_ok_iff.1 own
    exact checkArgs_nested.2 ⟨check_eq_ok_iff.2 ⟨⟨extension, found⟩, inside within⟩, behind later⟩

/-- An expression that has a value passes its check. -/
theorem check_of_evaluate {x : Expression} {value : Value}
    (evaluated : e.evaluate site x = .ok value) : e.check x = .ok () := by
  obtain ⟨extension, arguments, found, given, -⟩ := evaluate_eq_ok_iff.1 evaluated
  exact check_eq_ok_iff.2 ⟨⟨extension, found⟩, checkArgs_of_evaluateArgs given⟩

/-- If no extension refuses, a checked call has a value as soon as its arguments have theirs. -/
theorem Total.evaluate (total : e.Total) {x : Expression} {arguments : Arguments}
    (checked : e.check x = .ok ())
    (given : e.evaluateArgs site.services x.args = .ok arguments) :
    ∃ value, e.evaluate site x = .ok value := by
  obtain ⟨⟨extension, found⟩, -⟩ := check_eq_ok_iff.1 checked
  obtain ⟨value, asked⟩ := total _ _ (lookUp_eq_ok_iff.1 found) arguments site.services
  exact ⟨value, evaluate_eq_ok_iff.2 ⟨extension, arguments, found, given, asked⟩⟩

theorem Total.evaluateArgs (total : e.Total) : ∀ {args : Args}, e.checkArgs args = .ok () →
    ∃ arguments, e.evaluateArgs site.services args = .ok arguments := by
  intro args
  induction args with
  | nil => exact fun _ => ⟨_, rfl⟩
  | text key value others ih =>
    intro checked
    obtain ⟨later, evaluated⟩ := ih (by rw [checkArgs] at checked; exact checked)
    refine ⟨.cons key (.string value) later, ?_⟩
    rw [Extensions.evaluateArgs, evaluated]
    rfl
  | nested key head inner others inside behind =>
    intro checked
    obtain ⟨own, rest⟩ := checkArgs_nested.1 checked
    obtain ⟨arguments, given⟩ := inside (check_eq_ok_iff.1 own).2
    obtain ⟨value, evaluated⟩ := total.evaluate own given
    obtain ⟨later, laterEvaluated⟩ := behind rest
    refine ⟨.cons key value later, ?_⟩
    rw [evaluateArgs_nested, evaluated, laterEvaluated]
    rfl

/-! ## Failure -/

/-- Whether an expression has no value at a site. -/
def fails (e : Extensions) (site : Site) (x : Expression) : Bool := !(e.evaluate site x).isOk

/-- The extension of a call is known and is asked with the values of its arguments, and the reason
that it gives instead of a value is the fault. -/
def Refuses (e : Extensions) (site : Site) (call : Expression) (fault : EvaluationFault) : Prop :=
  ∃ extension arguments reason, e.get? call.head.extensionName = some extension ∧
    e.evaluateArgs site.services call.args = .ok arguments ∧
    extension arguments site.services = .error reason ∧ fault = .failed reason

/-- A checked call only fails if its arguments do or its extension refuses. -/
theorem refuses_of_evaluate {x : Expression} {fault : EvaluationFault}
    (checked : e.check x = .ok ()) (failed : e.evaluate site x = .error fault) :
    e.evaluateArgs site.services x.args = .error fault ∨
      (∃ arguments, e.evaluateArgs site.services x.args = .ok arguments) ∧
        e.Refuses site x fault := by
  obtain ⟨⟨extension, found⟩, -⟩ := check_eq_ok_iff.1 checked
  rw [evaluate, found] at failed
  rcases error_of_bind (show e.evaluateArgs site.services x.args >>= _ = .error fault from failed)
    with failed | ⟨arguments, given, asked⟩
  · exact .inl failed
  · obtain ⟨reason, refused, rfl⟩ := error_of_mapError asked
    have refuses : e.Refuses site x (.failed reason) :=
      ⟨extension, arguments, reason, lookUp_eq_ok_iff.1 found, given, refused, rfl⟩
    exact .inr ⟨⟨arguments, given⟩, refuses⟩

/-- If arguments have values, so have all calls in them. -/
theorem not_fails_of_evaluateArgs : ∀ {args : Args} {named : Bool} {arguments : Arguments},
    args.inOrder named → e.evaluateArgs site.services args = .ok arguments →
    ∀ call ∈ args.calls, e.fails site call = false := by
  intro args
  induction args with
  | nil => exact fun _ _ call listed => nomatch listed
  | text key value others ih =>
    intro named arguments ordered evaluated
    obtain ⟨_, later, -⟩ := ok_of_bind (by rw [evaluateArgs] at evaluated; exact evaluated)
    exact ih (Args.inOrder_text ordered) later
  | nested key head inner others inside behind =>
    intro named arguments ordered evaluated call listed
    obtain ⟨innerOrdered, othersOrdered⟩ := Args.inOrder_nested ordered
    rw [evaluateArgs_nested] at evaluated
    obtain ⟨value, own, evaluated⟩ := ok_of_bind evaluated
    obtain ⟨_, later, -⟩ := ok_of_bind evaluated
    obtain ⟨extension, given, -, within, -⟩ := evaluate_eq_ok_iff.1 own
    rw [Args.calls_nested ordered, Expression.calls] at listed
    rcases List.mem_append.1 listed with listed | listed
    · rcases List.mem_append.1 listed with listed | listed
      · exact inside innerOrdered within call listed
      · rw [List.mem_singleton.1 listed, fails, own]
        rfl
    · exact behind othersOrdered later call listed

/-- Of the calls of an expression that has a value none fails. -/
theorem not_fails_of_evaluate {x : Expression} {value : Value} (ordered : x.inOrder)
    (evaluated : e.evaluate site x = .ok value) : ∀ call ∈ x.calls, e.fails site call = false := by
  intro call listed
  obtain ⟨extension, arguments, -, given, -⟩ := evaluate_eq_ok_iff.1 evaluated
  rcases List.mem_append.1 listed with listed | listed
  · exact not_fails_of_evaluateArgs ordered given call listed
  · rw [List.mem_singleton.1 listed, fails, evaluated]
    rfl

/-- The call of a fault: the first that fails among some, which is refused with the fault. -/
def RefusedFirst (e : Extensions) (site : Site) (calls : List Expression)
    (fault : EvaluationFault) : Prop :=
  ∃ call, calls.find? (e.fails site) = some call ∧ e.Refuses site call fault

theorem RefusedFirst.before {calls : List Expression} {fault : EvaluationFault}
    (refused : e.RefusedFirst site calls fault) (others : List Expression) :
    e.RefusedFirst site (calls ++ others) fault := by
  obtain ⟨call, first, refuses⟩ := refused
  exact ⟨call, by rw [List.find?_append, first, Option.some_or], refuses⟩

theorem RefusedFirst.behind {calls : List Expression} {fault : EvaluationFault}
    (refused : e.RefusedFirst site calls fault) {others : List Expression}
    (succeed : ∀ call ∈ others, e.fails site call = false) :
    e.RefusedFirst site (others ++ calls) fault := by
  obtain ⟨call, first, refuses⟩ := refused
  have none : others.find? (e.fails site) = none :=
    List.find?_eq_none.2 fun call listed failing => by simp [succeed call listed] at failing
  exact ⟨call, by rw [List.find?_append, none, Option.none_or, first], refuses⟩

/-- The fault of a checked expression, if it is known where the faults of its arguments are from:
either an argument fails, or its own extension refuses. -/
theorem refusedFirst_of_args {x : Expression} (ordered : x.inOrder) (checked : e.check x = .ok ())
    (inside : ∀ fault, e.evaluateArgs site.services x.args = .error fault →
      e.RefusedFirst site x.args.calls fault)
    {fault : EvaluationFault} (failed : e.evaluate site x = .error fault) :
    e.RefusedFirst site x.calls fault := by
  rcases refuses_of_evaluate checked failed with failed | ⟨⟨arguments, given⟩, refuses⟩
  · exact (inside fault failed).before [x]
  · have own : e.RefusedFirst site [x] fault := by
      have failing : e.fails site x = true := by rw [fails, failed]; rfl
      exact ⟨x, List.find?_cons_of_pos failing, refuses⟩
    exact own.behind (not_fails_of_evaluateArgs ordered given)

/-- The fault of checked arguments. -/
theorem refusedFirst_of_evaluateArgs : ∀ {args : Args} {named : Bool} {fault : EvaluationFault},
    args.inOrder named → e.checkArgs args = .ok () →
    e.evaluateArgs site.services args = .error fault →
    e.RefusedFirst site args.calls fault := by
  intro args
  induction args with
  | nil => exact fun _ _ failed => nomatch failed
  | text key value others ih =>
    intro named fault ordered checked failed
    rw [evaluateArgs] at failed
    rw [Args.calls_text]
    rcases error_of_bind failed with later | ⟨_, _, done⟩
    · exact ih (Args.inOrder_text ordered) (by rw [checkArgs] at checked; exact checked) later
    · cases done
  | nested key head inner others inside behind =>
    intro named fault ordered checked failed
    obtain ⟨innerOrdered, othersOrdered⟩ := Args.inOrder_nested ordered
    obtain ⟨innerChecked, othersChecked⟩ := checkArgs_nested.1 checked
    have ordered' : Expression.inOrder ⟨head, inner⟩ := innerOrdered
    rw [evaluateArgs_nested] at failed
    rw [Args.calls_nested ordered]
    rcases error_of_bind failed with own | ⟨value, own, failed⟩
    · -- The evaluation ends at the nested expression.
      have within := fun fault =>
        @inside false fault innerOrdered (check_eq_ok_iff.1 innerChecked).2
      exact (refusedFirst_of_args ordered' innerChecked within own).before others.calls
    · -- It ends behind the nested expression, in which no call fails.
      rcases error_of_bind failed with later | ⟨_, _, done⟩
      · exact (behind othersOrdered othersChecked later).behind
          (not_fails_of_evaluate ordered' own)
      · cases done

/-- An expression whose extensions are all known **has a value exactly if it is checked, where no
extension refuses**. Whatever the extensions do, the fault of an expression that is checked is the
reason that the first of its failing calls is given by its extension. -/
theorem evaluate_of_check (e : Extensions) :
    (e.Total → ∀ site x, (∃ value, e.evaluate site x = .ok value) ↔ e.check x = .ok ()) ∧
    ∀ site (x : Expression), x.inOrder → e.check x = .ok () →
      ∀ fault, e.evaluate site x = .error fault →
        ∃ call, x.calls.find? (e.fails site) = some call ∧ e.Refuses site call fault := by
  constructor
  · intro total site x
    constructor
    · rintro ⟨value, evaluated⟩
      exact check_of_evaluate evaluated
    · intro checked
      have inside := (check_eq_ok_iff.1 checked).2
      obtain ⟨arguments, given⟩ := @Total.evaluateArgs e site total x.args inside
      exact total.evaluate checked given
  · intro site x ordered checked fault failed
    have within := fun fault => @refusedFirst_of_evaluateArgs e site x.args false fault ordered
      (check_eq_ok_iff.1 checked).2
    exact refusedFirst_of_args ordered checked within failed

/-- A call of an extension, after its namespace has been looked up. -/
def calling (namespaceUri name : String) (args : Args) : Expression :=
  ⟨⟨none, name, namespaceUri, ""⟩, args⟩

/-- A reference to the object with a name. -/
def referring (name : String) : Expression :=
  calling language2009 "Reference" (.text none name .nil)

/-- A resource with a reference for its place and another one for its key. -/
def twoReferences : Expression :=
  calling formsNamespace "StaticResource" <|
    .nested none (referring "first").head (referring "first").args <|
      .nested (some "Key") (referring "second").head (referring "second").args .nil

/-- `Null` alone refuses nothing. Where no object has a name, the first of two references is the
one that is refused, although the extension around them is looked up before it. -/
theorem evaluate_of_check_references :
    let nulls := empty.register ⟨language2009, "Null"⟩ null
    let nowhere : Site := ⟨.empty, ⟨#[], []⟩, .start none false [], .empty, 0⟩
    (nulls.Total ∧ ∃ value, nulls.evaluate nowhere (calling language2009 "Null" .nil) = .ok value) ∧
    twoReferences.inOrder ∧ builtIn.check twoReferences = .ok () ∧
      ∃ fault, builtIn.evaluate nowhere twoReferences = .error fault ∧
        builtIn.Refuses nowhere (referring "first") fault := by
  intro nulls nowhere
  have total : nulls.Total := by
    intro name extension found arguments services
    obtain ⟨key, known⟩ := exists_known_of_get? found
    rcases Table.get?_insert known with ⟨-, rfl⟩ | known
    · exact ⟨.null, rfl⟩
    · cases known
  have ordered : twoReferences.inOrder := by decide +kernel
  have checked : builtIn.check twoReferences = .ok () := by decide +kernel
  refine ⟨⟨total, ?_⟩, ordered, checked, ?_⟩
  · exact ((evaluate_of_check nulls).1 total nowhere _).2 (by decide +kernel)
  · cases evaluated : builtIn.evaluate nowhere twoReferences with
    | ok value =>
      have failing : builtIn.fails nowhere twoReferences = true := by decide +kernel
      rw [fails, evaluated] at failing
      cases failing
    | error fault =>
      obtain ⟨call, first, refuses⟩ :=
        (evaluate_of_check builtIn).2 nowhere twoReferences ordered checked fault evaluated
      have isFirst : twoReferences.calls.find? (builtIn.fails nowhere) =
          some (referring "first") := by decide +kernel
      rw [isFirst] at first
      exact ⟨fault, rfl, Option.some.inj first ▸ refuses⟩

end Extensions

end MarkupLoader
