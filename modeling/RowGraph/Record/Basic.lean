import RowGraph.Value.Json

/-!
# Record — rows with their included rows

A record has the columns of one row and, side by side with them, one field per include: the one
row it leads to, if there is one, or the list of them.  Fields are in order, and looking one up by
name finds the first of that name.

`Record.serialize` writes a record's fields as they come, `Record.toJson` makes an object of them,
in which a repeated name keeps its first place and takes its last value.
-/

namespace RowGraph

/-- The columns read of one row. -/
abbrev Cells := List (String × Value)

/-- One field of a record. -/
inductive Field where
  /-- A column. -/
  | value (v : Value)
  /-- The included row, if there is one. -/
  | one (row : Option Cells)
  /-- The included rows, in the order they were met. -/
  | many (rows : List Cells)
  deriving Repr

/-- Columns, then includes. -/
structure Record where
  fields : List (String × Field)
  deriving Repr

/-! ### JSON -/

namespace Cells

def serialize (cs : Cells) : String :=
  Json.brace (cs.map fun c => Json.member c.1 c.2.serialize)

def toJson (cs : Cells) : Json := .ofMembers (cs.map fun c => (c.1, c.2.toJson))

end Cells

namespace Field

def serialize : Field → String
  | .value v => v.serialize
  | .one none => "null"
  | .one (some row) => row.serialize
  | .many rows => Json.bracket (rows.map Cells.serialize)

def toJson : Field → Json
  | .value v => v.toJson
  | .one none => .null
  | .one (some row) => row.toJson
  | .many rows => .array (rows.map Cells.toJson)

end Field

namespace Record

def serialize (r : Record) : String :=
  Json.brace (r.fields.map fun f => Json.member f.1 f.2.serialize)

def toJson (r : Record) : Json := .ofMembers (r.fields.map fun f => (f.1, f.2.toJson))

/-! ### Looking fields up -/

def get? (r : Record) (name : String) : Option Field := (r.fields.find? (·.1 == name)).map (·.2)

/-- The value of a column. -/
def value? (r : Record) (name : String) : Option Value :=
  match r.get? name with
  | some (.value v) => some v
  | _ => none

/-- The row of an include that leads to one. -/
def one? (r : Record) (name : String) : Option Cells :=
  match r.get? name with
  | some (.one row) => row
  | _ => none

/-- The rows of an include that leads to many. -/
def many (r : Record) (name : String) : List Cells :=
  match r.get? name with
  | some (.many rows) => rows
  | _ => []

end Record

end RowGraph
