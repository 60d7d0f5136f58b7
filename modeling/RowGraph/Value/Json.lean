import RowGraph.Json.Basic
import RowGraph.Value.Basic

/-!
# Value — to and from JSON

`Value.toJson` and `Value.ofJson` go between values and documents; `Value.serialize` writes a
value's JSON text directly.  Bytes become a list of numbers, and a float without a JSON numeral
becomes null.  In the other direction an object has no value of its own and is kept as its text.
-/

namespace RowGraph.Value

/-! ### To JSON -/

def byteNumber (b : UInt8) : Json := .number (.integer b.toNat)

mutual

def toJson : Value → Json
  | .null => .null
  | .bool b => .bool b
  | .int64 i => .number (.integer i.toInt)
  | .float64 x => if x.isFinite then .number (.float x) else .null
  | .string s => .string s
  | .bytes bs => .array (bs.map byteNumber)
  | .array items => .array (toJsons items)

def toJsons : List Value → List Json
  | [] => []
  | v :: vs => v.toJson :: toJsons vs

end

/-! ### Straight to text -/

mutual

/-- The JSON text of a value, written without building a document. -/
def serialize : Value → String
  | .null => "null"
  | .bool b => if b then "true" else "false"
  | .int64 i => toString i.toInt
  | .float64 x => Json.floatText x
  | .string s => Json.quote s
  | .bytes bs => Json.bracket (bs.map fun b => toString b.toNat)
  | .array items => Json.bracket (serializes items)

def serializes : List Value → List String
  | [] => []
  | v :: vs => v.serialize :: serializes vs

end

/-! ### From JSON -/

/-- An integer of 64 signed bits stays an integer; every other number becomes a float. -/
def ofNumber : Json.Number → Value
  | .integer i =>
      if Int64.minValue.toInt ≤ i ∧ i ≤ Int64.maxValue.toInt then .int64 (.ofInt i)
      else .float64 (.ofInt i)
  | .float x => .float64 x

mutual

def ofJson : Json → Value
  | .null => .null
  | .bool b => .bool b
  | .number n => ofNumber n
  | .string s => .string s
  | .array items => .array (ofJsons items)
  | .object members => .string (Json.object members).text

def ofJsons : List Json → List Value
  | [] => []
  | j :: js => ofJson j :: ofJsons js

end

end RowGraph.Value
