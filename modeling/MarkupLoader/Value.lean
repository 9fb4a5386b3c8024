import MarkupLoader.Name

/-!
# Values

What a property, a collection or a dictionary holds. **Objects are held by reference**: a value
names an object of the heap and says nothing about what is in it.

* **Equality** (`Value.same`) compares numbers as numbers, so that not-a-number differs from
  itself, and objects by identity.
* **References** (`Value.references`) are the objects that a value holds, lists looked into.
-/

namespace MarkupLoader

/-- The place of an object in the heap. -/
abbrev ObjectId := Nat

/-- A value at run time. -/
inductive Value where
  | null
  | bool (b : Bool)
  | int (n : Int64)
  | float (x : Float)
  | string (s : String)
  /-- The name of a type. -/
  | type (name : QName)
  | list (items : List Value)
  | object (id : ObjectId)
deriving Repr, Inhabited

namespace Value

/-! ## Views -/

/-- The text of a string. -/
def string? : Value → Option String
  | string s => some s
  | _ => none

/-- The number of an integer. -/
def int? : Value → Option Int64
  | int n => some n
  | _ => none

/-- The number of an integer or a floating-point number. -/
def float? : Value → Option Float
  | float x => some x
  | int n => some n.toFloat
  | _ => none

/-- The truth value of a bool. -/
def bool? : Value → Option Bool
  | bool b => some b
  | _ => none

/-- The object of a reference. -/
def object? : Value → Option ObjectId
  | object id => some id
  | _ => none

/-! ## Equality and references -/

mutual

/-- Whether two values are equal. -/
def same : Value → Value → Bool
  | null, null => true
  | bool a, bool b => a == b
  | int a, int b => a == b
  | float a, float b => a == b
  | string a, string b => a == b
  | type a, type b => a == b
  | list a, list b => sameItems a b
  | object a, object b => a == b
  | _, _ => false

/-- Whether two lists have equal values at the same places. -/
def sameItems : List Value → List Value → Bool
  | [], [] => true
  | a :: as, b :: bs => same a b && sameItems as bs
  | _, _ => false

end

mutual

/-- The objects that a value holds, in order. -/
def references : Value → List ObjectId
  | object id => [id]
  | list items => referencesOf items
  | _ => []

/-- The objects that some values hold, in order. -/
def referencesOf : List Value → List ObjectId
  | [] => []
  | v :: vs => references v ++ referencesOf vs

end

end Value

end MarkupLoader
