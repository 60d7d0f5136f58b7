import RowGraph.Filter.Basic

/-!
# Find — what is asked for

The options of a find: a filter, the columns to read, the associations to include, and grouping,
order and paging.
-/

namespace RowGraph

/-- A request to read associated rows along with their host. -/
structure Include where
  /-- The entity included. -/
  target : String
  /-- Which of its associations; the target's table name if not given. -/
  aliasName? : Option String
  filter : Option Filter
  /-- Are hosts without an associated row left out? -/
  required : Bool
  /-- The columns to read; all if not given. -/
  columns : Option (List String)

inductive Direction where
  | asc
  | desc
  deriving DecidableEq, Repr

/-- Order is ascending unless said otherwise. -/
instance : Inhabited Direction := ⟨.asc⟩

/-- A column named by a caller: on the root, or behind the alias of a joined table. -/
structure ColumnRef where
  aliasName? : Option String
  column : String
  deriving DecidableEq, Repr

namespace ColumnRef

/-- Splits at the first dot: what stands before it, and what follows if there is one. -/
def splitAtDot : List Char → List Char × Option (List Char)
  | [] => ([], none)
  | c :: rest =>
      if c = '.' then ([], some rest) else (c :: (splitAtDot rest).1, (splitAtDot rest).2)

/-- Reads `column` or `alias.column`; the first dot divides. -/
def parse (s : String) : ColumnRef :=
  match splitAtDot s.toList with
  | (column, none) => ⟨none, String.ofList column⟩
  | (aliasName, some column) => ⟨some (String.ofList aliasName), String.ofList column⟩

end ColumnRef

/-- One term of an order. -/
structure OrderTerm where
  column : ColumnRef
  direction : Direction
  deriving DecidableEq, Repr

structure FindOptions where
  filter : Option Filter
  columns : Option (List String)
  includes : List Include
  group : List ColumnRef
  order : List OrderTerm
  limit : Option Nat
  offset : Option Nat

/-- Everything, in no particular order. -/
def FindOptions.all : FindOptions := ⟨none, none, [], [], [], none, none⟩

end RowGraph
