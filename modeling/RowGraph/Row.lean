import RowGraph.Upsert
import RowGraph.Value.Json

/-!
# Row — named cells in order

A row maps names to values and remembers the order in which the names were first set.  Setting a
name again replaces its value in place.
-/

namespace RowGraph

/-- Cells in the order their names were first set. -/
@[ext]
structure Row where
  cells : List (String × Value)
  /-- No name stands twice. -/
  nodup : (cells.map (·.1)).Nodup
  deriving Repr

namespace Row

def empty : Row := ⟨[], List.nodup_nil⟩

def names (r : Row) : List String := r.cells.map (·.1)

/-- Puts a value under a name, in place if the name is there and at the end if it is not. -/
def set (r : Row) (name : String) (value : Value) : Row :=
  ⟨upsert (·.1) (name, value) r.cells, nodup_map_key_upsert (name, value) r.nodup⟩

/-- The row made by setting the pairs one after the other. -/
def ofList (pairs : List (String × Value)) : Row :=
  pairs.foldl (fun r p => r.set p.1 p.2) empty

/-- The row of an object's members, each value read as by `Value.ofJson`. -/
def ofMembers (members : List (String × Json)) : Row :=
  ofList (members.map fun m => (m.1, Value.ofJson m.2))

def get? (r : Row) (name : String) : Option Value := (r.cells.find? (·.1 == name)).map (·.2)

/-- The value under a name, null where there is none. -/
def get (r : Row) (name : String) : Value := (r.get? name).getD .null

def contains (r : Row) (name : String) : Bool := (r.get? name).isSome

def size (r : Row) : Nat := r.cells.length

def isEmpty (r : Row) : Bool := r.cells.isEmpty

end Row

end RowGraph
