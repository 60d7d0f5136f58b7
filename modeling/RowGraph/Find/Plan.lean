import RowGraph.Find.Shape

/-!
# Find — plans

A plan is a find or a count whose names are all resolved.  `Registry.select` and
`Registry.count` make plans from options and refuse what does not resolve; `Select.fragment` and
`Count.fragment` write them.  Both rest on the same `Source`: the tables and the filters.
-/

namespace RowGraph

open Sql

/-! ### Sources -/

/-- The tables of a find and the filters on them, the root's first. -/
structure Source where
  table : String
  aliasName : String
  filter : Option Predicate
  joins : List Join
  deriving Repr

namespace Source

/-- The filters as SQL, numbered from the first place on. -/
def filterFragments (s : Source) : List Fragment :=
  match s.filter with
  | some p => p.fragment (some s.aliasName) 0 :: (Join.filterFragments s.joins p.size).filterMap id
  | none => (Join.filterFragments s.joins 0).filterMap id

/-- The `WHERE` clause, if there is anything to ask. -/
def whereClause : List Fragment → Fragment
  | [] => []
  | fs => .token .filter ++ .joinGrouped .and fs

def fragment (s : Source) : Fragment :=
  .token .fromTable ++ .ident s.table ++ .token .as ++ .ident s.aliasName ++
    s.joins.flatMap Join.fragment ++ whereClause s.filterFragments

end Source

/-- Checks that no join takes an alias in use. -/
def requireDistinct : List String → List Join → Except Error Unit
  | _, [] => .ok ()
  | used, j :: js => do
      let used ← takeAlias used j.aliasName
      requireDistinct used js

/-- The source of a find on `host`.  Its filters are checked root first, so their parameters are
numbered in that order. -/
def Registry.source (r : Registry) (host : Entity) (o : FindOptions) : Except Error Source := do
  if o.includes.any (·.aliasName? == some host.table) then
    throw (.ambiguousAlias host.table)
  let filter ← (Filter.predicate? o.filter).result
  let joins ← (r.joins host o.includes).result
  requireDistinct [host.table] joins
  return ⟨r.home.qualify host.table, host.table, filter, joins⟩

/-! ### Selects -/

/-- A find with all names resolved. -/
structure Select where
  source : Source
  shape : Shape
  group : List TableColumn
  order : List (TableColumn × Direction)
  limit : Option Nat
  offset : Option Nat
  deriving Repr

/-- The column a caller's reference means: of the root, or of the join with its alias. -/
def Registry.resolve (r : Registry) (root : Entity) (joins : List Join) (c : ColumnRef) :
    Except Error TableColumn := do
  let aliasName := c.aliasName?.getD root.table
  let owner ←
    if aliasName = root.table then .ok root
    else
      match joins.find? (·.aliasName == aliasName) with
      | some j => r.entity j.entity
      | none => .error (.unknownAttribute aliasName c.column)
  if owner.hasColumn c.column then return ⟨aliasName, c.column⟩
  else .error (.unknownAttribute owner.name c.column)

/-- The plan of a find. -/
def Registry.select (r : Registry) (name : String) (o : FindOptions) : Except Error Select := do
  let host ← r.entity name
  let source ← r.source host o
  let shape ← r.shape host o.columns o.includes
  let group ← o.group.mapM (r.resolve host source.joins)
  let order ← o.order.mapM fun t => do
    let c ← r.resolve host source.joins t.column
    return (c, t.direction)
  return ⟨source, shape, group, order, o.limit, o.offset⟩

def Direction.token : Direction → Token
  | .asc => .asc
  | .desc => .desc

namespace Select

/-- The columns of one table, each under its label. -/
def projection (t : TableShape) : List Fragment :=
  t.columns.map fun c =>
    Fragment.column (some t.aliasName) c ++ Fragment.token .as ++ Fragment.ident (t.label c)

/-- A keyword and a list, if there is something in it. -/
def clause (keyword : Token) : List Fragment → Fragment
  | [] => []
  | fs => Fragment.token keyword ++ Fragment.commas fs

/-- A keyword and a number, if there is one. -/
def bound (keyword : Token) : Option Nat → Fragment
  | none => []
  | some n => Fragment.token keyword ++ [.number n]

def orderTerm (t : TableColumn × Direction) : Fragment := t.1.fragment ++ .token t.2.token

def fragment (s : Select) : Fragment :=
  .token .select ++ .commas (s.shape.tables.flatMap projection) ++ s.source.fragment ++
    clause .groupBy (s.group.map TableColumn.fragment) ++
    clause .orderBy (s.order.map orderTerm) ++
    bound .limit s.limit ++ bound .offset s.offset

def statement (s : Select) : Statement := s.fragment.statement

end Select

/-! ### Counts -/

/-- A count of the distinct keys of the root. -/
structure Count where
  source : Source
  key : TableColumn
  deriving Repr

/-- The plan of a count; of the options only filter and includes matter. -/
def Registry.count (r : Registry) (name : String) (o : FindOptions) : Except Error Count := do
  let host ← r.entity name
  let source ← r.source host o
  return ⟨source, ⟨host.table, host.primaryKey⟩⟩

namespace Count

def fragment (c : Count) : Fragment :=
  .token .select ++ .call "COUNT" (.token .distinct ++ c.key.fragment) ++ .token .as ++
    .ident "count" ++ c.source.fragment

def statement (c : Count) : Statement := c.fragment.statement

end Count

end RowGraph
