import RowGraph.Find.Join

/-!
# Find — shapes

A shape says which columns of which tables a find reads, and so how its flat rows go back to
records: the cell of a column is labelled with its table's alias and its name.  The primary key of
every table is read whether it is asked for or not, since records are told apart by it.
-/

namespace RowGraph

/-- The columns read of one table. -/
structure TableShape where
  aliasName : String
  primaryKey : String
  columns : List String
  deriving DecidableEq, Repr

namespace TableShape

/-- The label of a column's cell. -/
def label (t : TableShape) (column : String) : String := t.aliasName ++ "_" ++ column

def keyLabel (t : TableShape) : String := t.label t.primaryKey

end TableShape

/-- An include as it appears in a record, under its alias. -/
structure IncludeShape where
  kind : AssociationKind
  table : TableShape
  deriving DecidableEq, Repr

/-- What a find reads. -/
structure Shape where
  root : TableShape
  includes : List IncludeShape
  deriving DecidableEq, Repr

/-- The columns of every table, root first. -/
def Shape.tables (s : Shape) : List TableShape := s.root :: s.includes.map (·.table)

/-! ### Projections -/

/-- Adds the requested columns to those already chosen, each once. -/
def Entity.choose (e : Entity) (chosen : List String) : List String → Except Error (List String)
  | [] => .ok chosen
  | c :: rest =>
      if e.hasColumn c then e.choose (if chosen.contains c then chosen else chosen ++ [c]) rest
      else .error (.unknownAttribute e.name c)

/-- The columns to read: all, or the requested ones behind the primary key if that is not among
them. -/
def Entity.projection (e : Entity) : Option (List String) → Except Error (List String)
  | none => .ok e.columnNames
  | some requested =>
      e.choose (if requested.contains e.primaryKey then [] else [e.primaryKey]) requested

/-! ### Shapes of finds -/

/-- Adds an alias to those in use. -/
def takeAlias (used : List String) (aliasName : String) : Except Error (List String) :=
  if used.contains aliasName then .error (.ambiguousAlias aliasName) else .ok (aliasName :: used)

/-- The shapes of a host's includes; no two tables of the statement may share an alias. -/
def Registry.includeShapes (r : Registry) (host : Entity) :
    List String → List Include → Except Error (List IncludeShape)
  | _, [] => .ok []
  | used, i :: rest => do
      let (a, target) ← r.findAssociation host i
      let used ← if a.kind = .belongsToMany then takeAlias used (throughAlias a.aliasName)
        else .ok used
      let used ← takeAlias used a.aliasName
      let columns ← target.projection i.columns
      let shapes ← r.includeShapes host used rest
      return ⟨a.kind, ⟨a.aliasName, target.primaryKey, columns⟩⟩ :: shapes

/-- The shape of a find on `host`. -/
def Registry.shape (r : Registry) (host : Entity) (columns : Option (List String))
    (includes : List Include) : Except Error Shape := do
  let chosen ← host.projection columns
  let shapes ← r.includeShapes host [host.table] includes
  return ⟨⟨host.table, host.primaryKey, chosen⟩, shapes⟩

end RowGraph
