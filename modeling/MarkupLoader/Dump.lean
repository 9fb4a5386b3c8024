import MarkupLoader.Decimal.Layout
import MarkupLoader.Heap.Basic
import MarkupLoader.Json.Printer

/-!
# Dumping values

A value is dumped as JSON with everything that can be reached from it. **An object that is being
dumped already, further up, is cut short** to a mark with the name of its type, so that cycles
end; an object that is merely shared is dumped each time.

An object becomes the members `$type`, its properties, `$items` if it has any, and `$resources` if
it is of dictionary kind.

Every object on the way down is a new one, so the number of objects bounds how deep a dump goes.

Main definition: `Heap.dump`.
-/

namespace MarkupLoader

/-- How floating-point numbers are written in a dump. A half goes to the even neighbour. -/
def Decimal.json : Layout := ⟨some (-5), some 15, true, true, .toEven⟩

namespace JsonValue

/-- A floating-point number; those that are not finite have no number in the format. -/
def ofFloat (x : Float) : JsonValue :=
  match Decimal.json.finite? x with
  | some text => number text
  | none => null

end JsonValue

namespace Heap

/-- What stands for an object in a dump, given the dumps of what is in it. -/
def dumpObject (o : Object) (properties items entries : List JsonValue) : JsonValue :=
  let start : Table String JsonValue := Table.ofList [("$type", .text o.typeName)]
  let withProperties := start.insertAll (o.properties.keys.zip properties)
  let withItems :=
    if items.isEmpty then withProperties else withProperties.insert "$items" (.array items)
  let whole :=
    if o.kind = .dictionary then
      withItems.insert "$resources"
        (.members (Table.ofList (o.entries.keys.zip entries)).entries)
    else withItems
  .members whole.entries

mutual

/-- The dump of a value, given the dump of an object. -/
def dumpWith (dumpId : ObjectId → JsonValue) : Value → JsonValue
  | .null => .null
  | .bool b => .bool b
  | .int n => .number (toString n.toInt)
  | .float x => .ofFloat x
  | .string s => .text s
  | .type name => .members [("$typeof", .text name.localName)]
  | .list items => .array (dumpAllWith dumpId items)
  | .object id => dumpId id

/-- The dumps of values, given the dump of an object. -/
def dumpAllWith (dumpId : ObjectId → JsonValue) : List Value → List JsonValue
  | [] => []
  | v :: vs => dumpWith dumpId v :: dumpAllWith dumpId vs

end

/-- The dump of an object, at most `depth` objects deep. `path` holds the objects that are being
dumped. -/
def dumpFrom (h : Heap) : Nat → List ObjectId → ObjectId → JsonValue
  | 0, _, id => .members [("$ref", .text (h.object id).typeName)]
  | depth + 1, path, id =>
    let o := h.object id
    if path.contains id then .members [("$ref", .text o.typeName)]
    else
      let inside := dumpAllWith (h.dumpFrom depth (id :: path))
      dumpObject o (inside o.properties.values) (inside o.items) (inside o.entries.values)

/-- The dump of a value. -/
def dump (h : Heap) (v : Value) : JsonValue := dumpWith (h.dumpFrom (h.size + 1) []) v

end Heap

end MarkupLoader
