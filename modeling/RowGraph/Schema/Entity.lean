import RowGraph.DataType
import RowGraph.Upsert

/-!
# Schema — entities and associations

An entity has a table, a primary key, columns in the order of their declaration, and the
associations that were wired onto it.  Entities are made from a `Declaration`: declaring a column
again changes its type in place, and a primary key that was not declared comes first, as `INT64`.
So columns have different names and the primary key is one of them, which an entity comes with.
-/

namespace RowGraph

/-- The four ways in which rows of one entity lead to rows of another. -/
inductive AssociationKind where
  /-- The owner holds the target's key. -/
  | belongsTo
  /-- The target holds the owner's key, in one row at most. -/
  | hasOne
  /-- The target holds the owner's key. -/
  | hasMany
  /-- A third entity holds both keys. -/
  | belongsToMany
  deriving DecidableEq, Repr

/-- Does the association lead to a list of rows? -/
def AssociationKind.isMany : AssociationKind → Bool
  | .hasMany | .belongsToMany => true
  | .belongsTo | .hasOne => false

/-- A relationship from the entity it is wired onto to a target, both named.

The foreign key is a column of the owner, of the target or, for `belongsToMany`, of the entity
named by `through`, whose `otherKey` then points at the target. -/
structure Association where
  kind : AssociationKind
  target : String
  foreignKey : String
  otherKey : Option String
  through : Option String
  aliasName? : Option String
  deriving DecidableEq, Repr

/-- The alias, empty as long as there is none. -/
def Association.aliasName (a : Association) : String := a.aliasName?.getD ""

/-- The association with its alias filled in if it has none. -/
def Association.withDefaultAlias (a : Association) (name : String) : Association :=
  { a with aliasName? := some (a.aliasName?.getD name) }

/-- A column and its type. -/
structure Column where
  name : String
  type : DataType
  deriving DecidableEq, Repr

/-- A table of the schema. -/
structure Entity where
  name : String
  table : String
  primaryKey : String
  columns : List Column
  associations : List Association
  /-- No two columns have one name. -/
  nodup : (columns.map (·.name)).Nodup
  /-- The primary key is a column. -/
  key_mem : primaryKey ∈ columns.map (·.name)
  deriving DecidableEq, Repr

namespace Entity

def columnNames (e : Entity) : List String := e.columns.map (·.name)

def column? (e : Entity) (name : String) : Option Column := e.columns.find? (·.name == name)

def hasColumn (e : Entity) (name : String) : Bool := (e.column? name).isSome

/-- The association wired under an alias. -/
def association? (e : Entity) (aliasName : String) : Option Association :=
  e.associations.find? (·.aliasName == aliasName)

end Entity

/-- An entity in the making. -/
structure Declaration where
  name : String
  table : Option String
  primaryKey : String
  columns : List Column
  /-- No two columns have one name. -/
  nodup : (columns.map (·.name)).Nodup
  deriving DecidableEq, Repr

namespace Declaration

/-- Nothing declared: the table is named as the entity and the key is `id`. -/
def start (name : String) : Declaration := ⟨name, none, "id", [], List.nodup_nil⟩

def withTable (d : Declaration) (table : String) : Declaration := { d with table := some table }

def withPrimaryKey (d : Declaration) (column : String) : Declaration :=
  { d with primaryKey := column }

/-- Declares a column at the end, or changes its type where it stands. -/
def withColumn (d : Declaration) (name : String) (type : DataType) : Declaration :=
  { d with
    columns := upsert (·.name) ⟨name, type⟩ d.columns
    nodup := nodup_map_key_upsert _ d.nodup }

/-- The columns, with the primary key in front if it is not among them. -/
def allColumns (d : Declaration) : List Column :=
  if d.columns.any (·.name == d.primaryKey) then d.columns
  else ⟨d.primaryKey, .int64⟩ :: d.columns

theorem map_name_allColumns (d : Declaration) :
    d.allColumns.map (·.name) =
      if d.primaryKey ∈ d.columns.map (·.name) then d.columns.map (·.name)
      else d.primaryKey :: d.columns.map (·.name) := by
  have hany : d.columns.any (·.name == d.primaryKey) ↔ d.primaryKey ∈ d.columns.map (·.name) := by
    simp
  unfold allColumns
  by_cases hk : d.primaryKey ∈ d.columns.map (·.name)
  · rw [if_pos (hany.mpr hk), if_pos hk]
  · rw [if_neg fun h => hk (hany.mp h), if_neg hk, List.map_cons]

theorem nodup_allColumns (d : Declaration) : (d.allColumns.map (·.name)).Nodup := by
  rw [map_name_allColumns]
  split
  case isTrue => exact d.nodup
  case isFalse hk => exact List.nodup_cons.mpr ⟨hk, d.nodup⟩

theorem key_mem_allColumns (d : Declaration) : d.primaryKey ∈ d.allColumns.map (·.name) := by
  rw [map_name_allColumns]
  split
  case isTrue hk => exact hk
  case isFalse => exact List.mem_cons_self

def entity (d : Declaration) : Entity where
  name := d.name
  table := d.table.getD d.name
  primaryKey := d.primaryKey
  columns := d.allColumns
  associations := []
  nodup := d.nodup_allColumns
  key_mem := d.key_mem_allColumns

end Declaration

end RowGraph
