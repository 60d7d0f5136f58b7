import RowGraph.Find.Shape
import RowGraph.Record.Basic
import RowGraph.Row

/-!
# Record — from flat rows to records

A find with includes answers with one flat row per combination of matched rows.
`Shape.records` folds them back: rows of one root key make one record, in the order the keys are
first met; a row whose root key is null belongs to none.  An include that leads to many rows
gathers each key once, with the row that brought it first; one that leads to a single row takes
the last.  Keys are told apart by `Value.same`.

Without includes every row is a record of its own.
-/

namespace RowGraph

/-- The columns of one table in a flat row; a cell that is missing is null. -/
def TableShape.project (t : TableShape) (row : Row) : Cells :=
  t.columns.map fun c => (c, row.get (t.label c))

/-- What has been gathered for one include. -/
inductive Gathered where
  | one (row : Option Cells)
  /-- Each row with its key. -/
  | many (rows : List (Value × Cells))
  deriving Repr

namespace Gathered

def start (i : IncludeShape) : Gathered := if i.kind.isMany then .many [] else .one none

/-- Takes a row of the include into account. -/
def add (key : Value) (cells : Cells) : Gathered → Gathered
  | .one _ => .one (some cells)
  | .many rows => if rows.any (·.1.same key) then .many rows else .many (rows ++ [(key, cells)])

/-- Takes a flat row into account, unless the include has no row in it. -/
def absorb (g : Gathered) (t : TableShape) (row : Row) : Gathered :=
  if (row.get t.keyLabel).isNull then g else g.add (row.get t.keyLabel) (t.project row)

def field : Gathered → Field
  | .one row => .one row
  | .many rows => .many (rows.map (·.2))

end Gathered

/-- A record in the making: its key, its columns, and what its includes have gathered. -/
structure Group where
  key : Value
  cells : Cells
  gathered : List Gathered
  deriving Repr

namespace Group

/-- The group of a key not met before, with the columns of the row that brought it. -/
def start (s : Shape) (key : Value) (row : Row) : Group :=
  ⟨key, s.root.project row, s.includes.map Gathered.start⟩

def absorb (s : Shape) (row : Row) (g : Group) : Group :=
  { g with gathered := s.includes.zipWith (fun i x => x.absorb i.table row) g.gathered }

def record (s : Shape) (g : Group) : Record :=
  ⟨g.cells.map (fun c => (c.1, .value c.2)) ++
    s.includes.zipWith (fun i x => (i.table.aliasName, x.field)) g.gathered⟩

end Group

namespace Shape

/-- Takes a row into the group of its key, made at the end if there is none. -/
def addRow (s : Shape) (key : Value) (row : Row) : List Group → List Group
  | [] => [(Group.start s key row).absorb s row]
  | g :: gs => if g.key.same key then g.absorb s row :: gs else g :: s.addRow key row gs

def step (s : Shape) (groups : List Group) (row : Row) : List Group :=
  if (row.get s.root.keyLabel).isNull then groups
  else s.addRow (row.get s.root.keyLabel) row groups

/-- The groups of the rows, in the order their keys are first met. -/
def groups (s : Shape) (rows : List Row) : List Group := rows.foldl s.step []

/-- The record of a row that includes nothing. -/
def flatRecord (s : Shape) (row : Row) : Record :=
  ⟨(s.root.project row).map fun c => (c.1, .value c.2)⟩

/-- The records of a find's flat rows. -/
def records (s : Shape) (rows : List Row) : List Record :=
  if s.includes.isEmpty then rows.map s.flatRecord else (s.groups rows).map (Group.record s)

end Shape

end RowGraph
