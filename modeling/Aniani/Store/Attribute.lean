import Mathlib.Data.Int.Notation
import Mathlib.Data.Nat.Notation

/-!
# Ids and attribute values

The two fixed-width ids of W3C trace context, and the typed attribute values that log entries and
spans carry. A `f64` is a value of a type `F64` that the development leaves open.

## Main definitions

* `TraceId`, `SpanId`
* `AttributeValue`
-/

namespace Aniani

/-- `[u8; 16]`. -/
abbrev TraceId := Vector UInt8 16

/-- `[u8; 8]`. -/
abbrev SpanId := Vector UInt8 8

/-- Attribute values: the four scalars, arrays, bytes and key-value lists, with every string
interned. -/
inductive AttributeValue (Spur F64 : Type) where
  | string (s : Spur)
  | int (i : ℤ)
  | float (f : F64)
  | bool (b : Bool)
  | array (items : List (AttributeValue Spur F64))
  | bytes (b : List UInt8)
  | keyValueList (pairs : List (Spur × AttributeValue Spur F64))

/-- The attributes of a log entry, a span, an event or a link. -/
abbrev Attributes (Spur F64 : Type) := List (Spur × AttributeValue Spur F64)

end Aniani
