import DocStore.Capture.Record
/-!
# Sample records

A few record types that show every shape a described record can have:
products with and without an identity, maps under composite and integer
keys, a unit, a wrapper, a sum, and one whose description fails.
-/

namespace DocStore

namespace Sample

/-- The state of an entity, with named readings. -/
structure State where
  entityId : String
  state : String
  attributes : Std.ExtTreeMap String Float compare

instance : Recordable State where
  describe s := .product "State"
    [.given "entity_id" (describe s.entityId), .given "state" (describe s.state),
      .given "attributes" (describe s.attributes)]
  typeName := "State"
  identity s := some s.entityId

/-- The order of pairs of bytes: by the first, then by the second. -/
abbrev pairOrder : UInt8 × UInt8 → UInt8 × UInt8 → Ordering :=
  compareLex (compareOn (·.1)) (compareOn (·.2))

/-- An event with data under pairs of numbers. -/
structure Event where
  eventType : String
  data : Std.ExtTreeMap (UInt8 × UInt8) String pairOrder

instance : Recordable Event where
  describe e := .product "Event"
    [.given "event_type" (describe e.eventType), .given "data" (describe e.data)]
  typeName := "Event"
  identity e := some e.eventType

/-- A single reading, named otherwise than its type. -/
structure SensorReading where
  value : Float

instance : Recordable SensorReading where
  describe r := .product "SensorReading" [.given "value" (describe r.value)]
  typeName := "Reading"

/-- A thing told apart by a number. -/
structure Named where
  id : Int64
  values : List (Option Float)

instance : Recordable Named where
  describe n := .product "Named" [.given "id" (describe n.id), .given "values" (describe n.values)]
  typeName := "Named Thing"
  identity n := some n.id.toInt.repr

/-- Lists of texts under small whole numbers. -/
structure Keyed where
  key : String
  byKey : Std.ExtTreeMap Int8 (List String) compare

instance : Recordable Keyed where
  describe k := .product "Keyed" [.given "key" (describe k.key), .given "by_key" (describe k.byKey)]
  typeName := "Keyed"
  identity k := some k.key

/-- A product without fields. -/
structure Marker where

instance : Recordable Marker where
  describe _ := .unitProduct "Marker"
  typeName := "Marker"

/-- A product with one field without a name. -/
structure Wrapper where
  value : Float

instance : Recordable Wrapper where
  describe w := .wrapper "Wrapper" (describe w.value)
  typeName := "Wrapper"

/-- A sum with an alternative of each form. -/
inductive Shape where
  | empty
  | circle (radius : Float)
  | rect (width height : Float)
  | poly (sides : UInt64) (isOpen : Bool)

instance : Recordable Shape where
  describe
    | .empty => .unitVariant "Shape" "Empty"
    | .circle radius => .wrapperVariant "Shape" "Circle" (describe radius)
    | .rect width height => .tupleVariant "Shape" "Rect" [describe width, describe height]
    | .poly sides isOpen => .productVariant "Shape" "Poly"
        [.given "sides" (describe sides), .given "open" (describe isOpen)]
  typeName := "Shape"

/-- A value whose description always fails. -/
structure Failing where
  message : String

instance : Recordable Failing where
  describe f := .fail f.message
  typeName := "Failing"
  identity f := some f.message

end Sample

end DocStore
