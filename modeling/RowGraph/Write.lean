import RowGraph.Filter.Compile
import RowGraph.Row
import RowGraph.Schema.Registry

/-!
# Write — inserting, updating and deleting

Plans of the three kinds of write, and their SQL.  Every value is bound as a parameter.  An update
or a delete always carries a `WHERE`: without a filter it is `WHERE TRUE`, since the warehouse
takes no such statement without one.
-/

namespace RowGraph

open Sql

/-- Checks that every cell of a row is a column. -/
def Entity.requireCells (e : Entity) (row : Row) : Except Error Unit :=
  match row.names.find? fun n => !e.hasColumn n with
  | some n => .error (.unknownAttribute e.name n)
  | none => .ok ()

/-! ### Insert -/

/-- Rows for a table: for each, the values of `columns` in order. -/
structure Insert where
  table : String
  columns : List String
  rows : List (List Value)
  deriving Repr

/-- The plan of an insert.  The columns are those that some row supplies, in the order of their
declaration; a row that does not supply one of them has null there. -/
def Registry.insert (r : Registry) (name : String) (rows : List Row) : Except Error Insert := do
  let e ← r.entity name
  rows.forM e.requireCells
  let columns := e.columnNames.filter fun c => rows.any (·.contains c)
  if columns.isEmpty then throw (.noValues e.name)
  return ⟨r.home.qualify e.table, columns, rows.map fun row => columns.map row.get⟩

namespace Insert

/-- The rows as tuples of placeholders, numbered on from row to row. -/
def tuples : List (List Value) → Nat → List Fragment
  | [], _ => []
  | vs :: rest, n => .parens (.commas (Fragment.paramsFrom n vs)) :: tuples rest (n + vs.length)

def fragment (i : Insert) : Fragment :=
  .token .insertInto ++ .ident i.table ++ .parens (.commas (i.columns.map Fragment.ident)) ++
    .token .values ++ .commas (tuples i.rows 0)

def statement (i : Insert) : Statement := i.fragment.statement

end Insert

/-! ### Update and delete -/

/-- The rows a write without a filter is about: all. -/
def Filter.predicateOrAll : Option Filter → Except Error Predicate
  | none => .ok (.constant true)
  | some f => f.predicate.result

/-- Assignments to the rows of a table on which the filter holds. -/
structure Update where
  table : String
  assignments : List (String × Value)
  filter : Predicate
  deriving Repr

def Registry.update (r : Registry) (name : String) (values : Row) (filter : Option Filter) :
    Except Error Update := do
  let e ← r.entity name
  if values.isEmpty then throw (.noValues e.name)
  e.requireCells values
  let p ← Filter.predicateOrAll filter
  return ⟨r.home.qualify e.table, values.cells, p⟩

namespace Update

/-- The assignments, numbered from place `n` on. -/
def assign : List (String × Value) → Nat → List Fragment
  | [], _ => []
  | (column, v) :: rest, n =>
      (.ident column ++ .token .eq ++ .param n v) :: assign rest (n + 1)

def fragment (u : Update) : Fragment :=
  .token .update ++ .ident u.table ++ .token .set ++ .commas (assign u.assignments 0) ++
    .token .filter ++ u.filter.fragment none u.assignments.length

def statement (u : Update) : Statement := u.fragment.statement

end Update

/-- The removal of the rows of a table on which the filter holds. -/
structure Delete where
  table : String
  filter : Predicate
  deriving Repr

def Registry.delete (r : Registry) (name : String) (filter : Option Filter) :
    Except Error Delete := do
  let e ← r.entity name
  let p ← Filter.predicateOrAll filter
  return ⟨r.home.qualify e.table, p⟩

namespace Delete

def fragment (d : Delete) : Fragment :=
  .token .deleteFrom ++ .ident d.table ++ .token .filter ++ d.filter.fragment none 0

def statement (d : Delete) : Statement := d.fragment.statement

end Delete

end RowGraph
