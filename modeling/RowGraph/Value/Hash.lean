import RowGraph.Text.Utf8
import RowGraph.Value.Basic

/-!
# Value — what a hasher is fed

Where values are keys they are written to a hasher: first the kind of the value, then what it
holds.  Bytes and arrays say their length first, a text is closed by a byte that no text has, and
floats are written by their bits, as `Value.same` compares them.
-/

namespace RowGraph

/-- One write to a hasher. -/
inductive HashWord where
  /-- The kind of a value, by its place among the kinds. -/
  | kind (place : Nat)
  | byte (b : UInt8)
  | int64 (i : Int64)
  | uint64 (n : UInt64)
  | length (n : Nat)
  | bytes (bs : List UInt8)
  deriving DecidableEq, Repr

namespace Value

mutual

/-- What a hasher is fed for a value. -/
def hashWords : Value → List HashWord
  | .null => [.kind 0]
  | .bool b => [.kind 1, .byte (if b then 1 else 0)]
  | .int64 i => [.kind 2, .int64 i]
  | .float64 x => [.kind 3, .uint64 x.bits]
  | .string s => [.kind 4, .bytes (Utf8.encode s), .byte 0xFF]
  | .bytes bs => [.kind 5, .length bs.length, .bytes bs]
  | .array items => .kind 6 :: .length items.length :: itemsHashWords items

def itemsHashWords : List Value → List HashWord
  | [] => []
  | v :: vs => hashWords v ++ itemsHashWords vs

end

end Value

end RowGraph
