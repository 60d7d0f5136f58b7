import RowGraph.Filter.Compile
import RowGraph.Find.Options
import RowGraph.Schema.Registry

/-!
# Find — joins

Each include becomes one join, and two if rows are linked through a third entity: first to the
link, then to the target.  `Registry.joins` resolves the includes of a host in order, checking
their filters on the way; a filter speaks of the columns of its include's target.
-/

namespace RowGraph

/-- A column of a table of the statement, the table named by its alias. -/
structure TableColumn where
  aliasName : String
  column : String
  deriving DecidableEq, Repr

def TableColumn.fragment (c : TableColumn) : Sql.Fragment := .column (some c.aliasName) c.column

/-- What becomes of rows without a match: they are dropped, or kept with nulls. -/
inductive JoinKind where
  | inner
  | leftOuter
  deriving DecidableEq, Repr

namespace JoinKind

def ofRequired (required : Bool) : JoinKind := if required then .inner else .leftOuter

def token : JoinKind → Sql.Token
  | .inner => .innerJoin
  | .leftOuter => .leftOuterJoin

end JoinKind

/-- A table joined in where `left` equals `right`. -/
structure Join where
  entity : String
  table : String
  aliasName : String
  kind : JoinKind
  left : TableColumn
  right : TableColumn
  /-- The include's filter, on the columns of this table. -/
  filter : Option Predicate
  deriving Repr

/-- The alias of the link table of an include. -/
def throughAlias (aliasName : String) : String := aliasName ++ "_through"

/-! ### From includes to joins -/

/-- The association an include means, and its target: the alias and the target both have to
agree. -/
def Registry.findAssociation (r : Registry) (host : Entity) (i : Include) :
    Except Error (Association × Entity) :=
  match r.get? i.target with
  | none => .error (.associationNotFound host.name i.target (i.aliasName?.getD ""))
  | some target =>
      let aliasName := i.aliasName?.getD target.table
      let means (a : Association) : Bool := a.aliasName == aliasName && a.target == target.name
      match host.associations.find? means with
      | some a => .ok (a, target)
      | none => .error (.associationNotFound host.name i.target aliasName)

/-- The predicate of a filter that asks for something. -/
def Filter.predicate? : Option Filter → Draw (Option Predicate)
  | none | some [] => pure none
  | some f => do
      let p ← f.predicate
      return some p

/-- The joins of an association already found, with the filter of its target. -/
def Registry.joinsOf (r : Registry) (host : Entity) (a : Association) (target : Entity)
    (kind : JoinKind) (filter : Option Predicate) : Except Error (List Join) :=
  let aliasName := a.aliasName
  let onto (left right : TableColumn) : Join :=
    ⟨target.name, r.home.qualify target.table, aliasName, kind, left, right, filter⟩
  match a.kind with
  | .belongsTo => .ok [onto ⟨host.table, a.foreignKey⟩ ⟨aliasName, target.primaryKey⟩]
  | .hasOne | .hasMany => .ok [onto ⟨host.table, host.primaryKey⟩ ⟨aliasName, a.foreignKey⟩]
  | .belongsToMany => do
      let (through, otherKey) ← r.link host.name a
      let link := throughAlias aliasName
      return [
        ⟨through.name, r.home.qualify through.table, link, kind,
          ⟨host.table, host.primaryKey⟩, ⟨link, a.foreignKey⟩, none⟩,
        onto ⟨link, otherKey⟩ ⟨aliasName, target.primaryKey⟩]

/-- The joins of one include. -/
def Registry.includeJoins (r : Registry) (host : Entity) (i : Include) : Draw (List Join) := do
  let (a, target) ← .lift (r.findAssociation host i)
  let filter ← Filter.predicate? i.filter
  .lift (r.joinsOf host a target (.ofRequired i.required) filter)

/-- The joins of a host's includes, in order. -/
def Registry.joins (r : Registry) (host : Entity) : List Include → Draw (List Join)
  | [] => pure []
  | i :: rest => do
      let js ← r.includeJoins host i
      let ks ← r.joins host rest
      return js ++ ks

/-! ### Writing -/

namespace Join

open Sql

def fragment (j : Join) : Fragment :=
  .token j.kind.token ++ .ident j.table ++ .token .as ++ .ident j.aliasName ++ .token .on ++
    j.left.fragment ++ .token .eq ++ j.right.fragment

/-- The joins' filters as SQL, numbered from place `n` on. -/
def filterFragments : List Join → Nat → List (Option Fragment)
  | [], _ => []
  | j :: js, n =>
      match j.filter with
      | some p => some (p.fragment (some j.aliasName) n) :: filterFragments js (n + p.size)
      | none => none :: filterFragments js n

end Join

end RowGraph
