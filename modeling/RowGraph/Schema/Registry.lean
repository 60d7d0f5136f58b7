import RowGraph.Error
import RowGraph.Schema.Entity
import RowGraph.Schema.Namespace
import RowGraph.Threaded

/-!
# Schema — registries

A registry holds the entities of a schema by name.  Two kinds of work change it in place:
`Registry.defining` adds an entity under a free name, and `Registry.associating` wires an
association onto one after checking everything that compiling relies on later: the entities exist,
the key columns are declared where the kind of association needs them, and the alias is neither
another association's nor a column's.  `Registry.define` and `Registry.associate` are what they come
to where they are not refused.
-/

namespace RowGraph

/-- The entities of a schema and the namespace of their tables. -/
structure Registry where
  home : Namespace
  entities : List Entity
  /-- No two entities have one name. -/
  nodup : (entities.map (·.name)).Nodup
  deriving DecidableEq, Repr

namespace Registry

def empty (home : Namespace) : Registry := ⟨home, [], List.nodup_nil⟩

def get? (r : Registry) (name : String) : Option Entity := r.entities.find? (·.name == name)

/-- The entity of a name that has to be defined. -/
def entity (r : Registry) (name : String) : Except Error Entity :=
  match r.get? name with
  | some e => .ok e
  | none => .error (.unknownEntity name)

theorem get?_eq_none_iff {r : Registry} {name : String} :
    r.get? name = none ↔ name ∉ r.entities.map (·.name) := by
  simp [get?]

/-- The registry with an entity more, whose name is free. -/
def add (r : Registry) (e : Entity) (free : r.get? e.name = none) : Registry where
  home := r.home
  entities := r.entities ++ [e]
  nodup := by
    have h := nodup_add r.nodup e.name
    rw [if_neg (get?_eq_none_iff.mp free)] at h
    rwa [List.map_append]

/-- Adds an entity whose name is free. -/
def defining (e : Entity) : Threaded Registry Error Unit := do
  let r ← get
  match free : r.get? e.name with
  | some _ => throw (.duplicateEntity e.name)
  | none => set (r.add e free)

def define (r : Registry) (e : Entity) : Except Error Registry :=
  (accepted (defining e) r).map (·.2)

/-- The entities in ascending order of their names. -/
def sorted (r : Registry) : List Entity := r.entities.mergeSort fun a b => a.name ≤ b.name

/-! ### Associations -/

def requireColumn (e : Entity) (column : String) : Except Error Unit :=
  if e.hasColumn column then .ok () else .error (.unknownAttribute e.name column)

/-- The entity a many-to-many association goes through, and its column that points at the
target. -/
def link (r : Registry) (owner : String) (a : Association) : Except Error (Entity × String) :=
  match a.through, a.otherKey with
  | none, _ => .error (.linkPartMissing owner a.aliasName .throughEntity)
  | some _, none => .error (.linkPartMissing owner a.aliasName .otherKey)
  | some through, some otherKey => do
      let e ← r.entity through
      return (e, otherKey)

/-- Checks that the key columns of an association are declared where they have to be. -/
def requireKeys (r : Registry) (host target : Entity) (a : Association) : Except Error Unit :=
  match a.kind with
  | .belongsTo => requireColumn host a.foreignKey
  | .hasOne | .hasMany => requireColumn target a.foreignKey
  | .belongsToMany => do
      let (through, otherKey) ← r.link host.name a
      requireColumn through a.foreignKey
      requireColumn through otherKey

/-- Checks that an alias is free on its host: records carry columns and included rows side by
side. -/
def requireFreeAlias (host : Entity) (aliasName : String) : Except Error Unit :=
  if (host.association? aliasName).isSome || host.hasColumn aliasName then
    .error (.duplicateAlias host.name aliasName)
  else .ok ()

/-- Adds an association to the entity of a name. -/
def attach (owner : String) (a : Association) (e : Entity) : Entity :=
  if e.name = owner then { e with associations := e.associations ++ [a] } else e

theorem name_attach (owner : String) (a : Association) (e : Entity) :
    (attach owner a e).name = e.name := by
  unfold attach
  split <;> rfl

theorem map_name_attach (owner : String) (a : Association) (es : List Entity) :
    (es.map (attach owner a)).map (·.name) = es.map (·.name) := by
  rw [List.map_map]
  exact List.map_congr_left fun e _ => name_attach owner a e

/-- The registry with an association more behind those of an entity. -/
def wire (r : Registry) (owner : String) (a : Association) : Registry where
  home := r.home
  entities := r.entities.map (attach owner a)
  nodup := by
    rw [map_name_attach]
    exact r.nodup

/-- Wires an association onto an entity; its alias, if it has none, is the target's table.  It comes
to the association as it was wired. -/
def associating (owner : String) (a : Association) : Threaded Registry Error Association := do
  let r ← get
  let host ← r.entity owner
  let target ← r.entity a.target
  let wired := a.withDefaultAlias target.table
  r.requireKeys host target wired
  requireFreeAlias host wired.aliasName
  -- the owner is looked up again to be changed
  let _ ← r.entity owner
  set (r.wire owner wired)
  return wired

/-- The registry with the association, and the association as it was wired. -/
def associate (r : Registry) (owner : String) (a : Association) :
    Except Error (Registry × Association) :=
  (accepted (associating owner a) r).map fun p => (p.2, p.1)

end Registry

end RowGraph
