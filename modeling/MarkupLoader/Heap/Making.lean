import MarkupLoader.Heap.Coercion

/-!
# Making objects

An object of a type is made without arguments, with arguments that go to the parameters of its
constructor, or by one of its factories. Arguments are coerced to the types of the properties that
they go to; a parameter that is no property takes its argument as it is.

Main definition: `TypeDescriptor.make`.
-/

namespace MarkupLoader

/-- Why an object cannot be made. -/
inductive MakingFault where
  | noFactory (factory typeName : String)
  | factoryFailed (reason : String)
  | noConstructor (typeName : String) (arguments : Nat)
  | badArgument (parameter : String) (fault : CoercionFault)
deriving DecidableEq, Repr

/-- The wording of a fault. -/
def MakingFault.message : MakingFault → String
  | noFactory factory typeName => s!"No factory method {factory} on {typeName}"
  | factoryFailed reason => reason
  | noConstructor typeName arguments =>
    s!"No constructor for {typeName} takes {arguments} arguments"
  | badArgument parameter fault => s!"argument {parameter}: {fault.message}"

namespace TypeDescriptor

/-- Makes an argument a value of the property that it goes to. -/
def coerceArgument (d : TypeDescriptor) (h : Heap) (parameter : String) (argument : Value) :
    Except MakingFault (String × Value) :=
  match d.property? parameter with
  | none => .ok (parameter, argument)
  | some p =>
    match h.coerce argument p.type with
    | .ok value => .ok (parameter, value)
    | .error fault => .error (.badArgument parameter fault)

/-- Makes an object of the type, with a factory if one is named. -/
def make (d : TypeDescriptor) (h : Heap) (arguments : List Value) (factory : Option String) :
    Except MakingFault Object :=
  match factory with
  | some name =>
    match d.factories.get? name with
    | none => .error (.noFactory name d.name.localName)
    | some make =>
      match make h.kindName arguments with
      | .error reason => .error (.factoryFailed reason)
      | .ok properties => .ok { Object.ofType d with properties := .ofList properties }
  | none =>
    if arguments.isEmpty then .ok (Object.ofType d)
    else if arguments.length ≠ d.constructorParameters.length then
      .error (.noConstructor d.name.localName arguments.length)
    else do
      let properties ← (d.constructorParameters.zip arguments).mapM fun (parameter, argument) =>
        d.coerceArgument h parameter argument
      return { Object.ofType d with properties := .ofList properties }

/-! ## Laws -/

/-- Without arguments and factory an object is made with nothing in it. -/
theorem make_nil (d : TypeDescriptor) (h : Heap) : d.make h [] none = .ok (Object.ofType d) := rfl

end TypeDescriptor

end MarkupLoader
