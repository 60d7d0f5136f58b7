import RowGraph.Binary64.Basic
import RowGraph.DataType

/-!
# Value — what parameters are bound to and cells hold

A `Value` is null, a scalar, or an array of values.  Two values are compared in two ways.
`Value.equal` is the equality of the warehouse: floats compare as numbers, so a NaN differs from
itself and the zeros are equal.  `Value.same` is identity: floats compare by their bits, so it is
an equivalence, and keys are grouped by it.
-/

namespace RowGraph

/-- A value bound to a parameter or read from a result cell. -/
inductive Value where
  | null
  | bool (b : Bool)
  | int64 (i : Int64)
  | float64 (x : Binary64)
  | string (s : String)
  | bytes (bs : List UInt8)
  | array (items : List Value)
  deriving Repr

namespace Value

instance : Inhabited Value := ⟨.null⟩

def isNull : Value → Bool
  | .null => true
  | _ => false

def asBool? : Value → Option Bool
  | .bool b => some b
  | _ => none

def asInt64? : Value → Option Int64
  | .int64 i => some i
  | _ => none

def asString? : Value → Option String
  | .string s => some s
  | _ => none

/-! ### Equality and identity -/

mutual

/-- Equality as the warehouse has it: floats as numbers, values of two kinds never. -/
def equal : Value → Value → Bool
  | .null, .null => true
  | .bool a, .bool b => a == b
  | .int64 a, .int64 b => a == b
  | .float64 a, .float64 b => a.equal b
  | .string a, .string b => a == b
  | .bytes a, .bytes b => a == b
  | .array a, .array b => equalItems a b
  | _, _ => false

def equalItems : List Value → List Value → Bool
  | [], [] => true
  | a :: as, b :: bs => a.equal b && equalItems as bs
  | _, _ => false

end

mutual

/-- Identity: as `equal`, with floats compared by their bits. -/
def same : Value → Value → Bool
  | .null, .null => true
  | .bool a, .bool b => a == b
  | .int64 a, .int64 b => a == b
  | .float64 a, .float64 b => a == b
  | .string a, .string b => a == b
  | .bytes a, .bytes b => a == b
  | .array a, .array b => sameItems a b
  | _, _ => false

def sameItems : List Value → List Value → Bool
  | [], [] => true
  | a :: as, b :: bs => a.same b && sameItems as bs
  | _, _ => false

end

/-! ### Types -/

mutual

/-- The type of a scalar; of an array, that of the first item that has one. -/
def dataType? : Value → Option DataType
  | .null => none
  | .bool _ => some .bool
  | .int64 _ => some .int64
  | .float64 _ => some .float64
  | .string _ => some .string
  | .bytes _ => some .bytes
  | .array items => firstType? items

def firstType? : List Value → Option DataType
  | [] => none
  | v :: vs => (dataType? v).or (firstType? vs)

end

/-- The type a parameter is declared with: an array's is written around its items' type. -/
def paramType? : Value → Option String
  | .array items => (firstType? items).map fun t => "ARRAY<" ++ t.name ++ ">"
  | v => v.dataType?.map DataType.name

end Value

end RowGraph
