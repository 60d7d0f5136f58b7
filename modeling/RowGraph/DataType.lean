/-!
# DataType — the scalar types of the warehouse

Each type has one SQL spelling, `DataType.name`.  `DataType.parse` reads a spelling in any case
and accepts the customary aliases as well; `DataType.ofName?` accepts the spellings alone.
-/

namespace RowGraph

/-- A text that names no type. -/
structure UnknownDataType where
  text : String
  deriving DecidableEq, Repr

def UnknownDataType.message (u : UnknownDataType) : String :=
  "unknown data type '" ++ u.text ++ "'"

/-- A scalar column type. -/
inductive DataType where
  | string
  | int64
  | float64
  | numeric
  | bigNumeric
  | bool
  | bytes
  | timestamp
  | date
  | time
  | dateTime
  | json
  | geography
  deriving DecidableEq, Repr

namespace DataType

/-- Columns are strings unless declared otherwise. -/
instance : Inhabited DataType := ⟨.string⟩

def all : List DataType :=
  [.string, .int64, .float64, .numeric, .bigNumeric, .bool, .bytes, .timestamp, .date, .time,
    .dateTime, .json, .geography]

/-- The SQL spelling. -/
def name : DataType → String
  | .string => "STRING"
  | .int64 => "INT64"
  | .float64 => "FLOAT64"
  | .numeric => "NUMERIC"
  | .bigNumeric => "BIGNUMERIC"
  | .bool => "BOOL"
  | .bytes => "BYTES"
  | .timestamp => "TIMESTAMP"
  | .date => "DATE"
  | .time => "TIME"
  | .dateTime => "DATETIME"
  | .json => "JSON"
  | .geography => "GEOGRAPHY"

def isTemporal : DataType → Bool
  | .timestamp | .date | .time | .dateTime => true
  | _ => false

def isNumeric : DataType → Bool
  | .int64 | .float64 | .numeric | .bigNumeric => true
  | _ => false

/-- The type with exactly this spelling. -/
def ofName? (s : String) : Option DataType := all.find? (·.name == s)

/-- The type an upper-case alias stands for. -/
def ofAlias? (s : String) : Option DataType :=
  match s with
  | "INTEGER" | "INT" | "BIGINT" => some .int64
  | "FLOAT" => some .float64
  | "DECIMAL" => some .numeric
  | "BIGDECIMAL" => some .bigNumeric
  | "BOOLEAN" => some .bool
  | _ => none

/-- The text with its ASCII letters in upper case. -/
def fold (s : String) : String := String.ofList (s.toList.map Char.toUpper)

/-- Reads a spelling or an alias; only the case of ASCII letters is free. -/
def parse (s : String) : Except UnknownDataType DataType :=
  match (ofName? (fold s)).or (ofAlias? (fold s)) with
  | some t => .ok t
  | none => .error ⟨s⟩

theorem ofName?_name (t : DataType) : ofName? t.name = some t := by
  cases t <;> rfl

end DataType

end RowGraph
