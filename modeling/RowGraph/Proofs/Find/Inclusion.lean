import RowGraph.Find.Plan
import RowGraph.Proofs.Filter.Checked
import RowGraph.Proofs.Schema.Reached

/-!
# Proofs — Find — resolved includes

An `Inclusion` is an include with its association, its target and, for `belongsToMany`, its link.
Joins and shapes of a find are those of its inclusions, in order:

* `Registry.yields_joins`: the joins that are made for a list of includes;
* `Registry.includeShapes_eq_ok`: the shapes, whose columns are columns of the targets;
* `Registry.source_eq_ok`, `Registry.select_eq_ok`, `Registry.count_eq_ok`: what a plan that is
  made consists of.
-/

namespace RowGraph

open Draw

/-! ### Filters that may be left out -/

/-- The predicate of a filter that may be left out is the conjunction of its clauses; without
entries there is none. -/
theorem Filter.yields_predicate? {f : Option Filter} {p : Option Predicate} {k : Nat}
    (h : (predicate? f).Yields p k) :
    ∃ cs, Clauses (f.getD []) cs ∧
      (f.getD [] = [] ∧ p = none ∨ f.getD [] ≠ [] ∧ p = some (.conjunction cs)) := by
  rcases f with _ | _ | ⟨e, f⟩
  · obtain ⟨rfl, -⟩ := yields_pure h
    exact ⟨[], .nil, .inl ⟨rfl, rfl⟩⟩
  · obtain ⟨rfl, -⟩ := yields_pure h
    exact ⟨[], .nil, .inl ⟨rfl, rfl⟩⟩
  · obtain ⟨q, i, j, hq, h₁, -⟩ := yields_bind h
    obtain ⟨rfl, -⟩ := yields_pure h₁
    obtain ⟨cs, hcs, rfl, -⟩ := yields_predicate hq
    exact ⟨cs, hcs, .inr ⟨List.cons_ne_nil _ _, rfl⟩⟩

/-! ### Inclusions -/

/-- The aliases an association is joined under: the link's in front of its own. -/
def Association.aliases (a : Association) : List String :=
  if a.kind = .belongsToMany then [throughAlias a.aliasName, a.aliasName] else [a.aliasName]

/-- An include with its names resolved. -/
structure Inclusion where
  request : Include
  association : Association
  target : Entity
  /-- The entity linked through and its column that points at the target. -/
  link : Option (Entity × String)
  filter : Option Predicate

namespace Inclusion

def kind (x : Inclusion) : JoinKind := .ofRequired x.request.required

def aliasName (x : Inclusion) : String := x.association.aliasName

/-- The join of the target, where the columns are equal. -/
def targetJoin (home : Namespace) (x : Inclusion) (left right : TableColumn) : Join :=
  ⟨x.target.name, home.qualify x.target.table, x.aliasName, x.kind, left, right, x.filter⟩

/-- The join of the link. -/
def linkJoin (home : Namespace) (host : Entity) (x : Inclusion) (through : Entity) : Join :=
  ⟨through.name, home.qualify through.table, throughAlias x.aliasName, x.kind,
    ⟨host.table, host.primaryKey⟩, ⟨throughAlias x.aliasName, x.association.foreignKey⟩, none⟩

/-- How an inclusion leads from its host to its target. -/
inductive Route where
  /-- A column of the host is equal to a column of the target. -/
  | direct (hostColumn targetColumn : String)
  /-- The foreign key of the link is the host's key, and its other key is the target's key. -/
  | linked (through : Entity) (otherKey : String)

def route (host : Entity) (x : Inclusion) : Option Route :=
  match x.association.kind, x.link with
  | .belongsTo, _ => some (.direct x.association.foreignKey x.target.primaryKey)
  | .hasOne, _ | .hasMany, _ => some (.direct host.primaryKey x.association.foreignKey)
  | .belongsToMany, some (through, otherKey) => some (.linked through otherKey)
  | .belongsToMany, none => none

/-- The joins of an inclusion. -/
def joins (home : Namespace) (host : Entity) (x : Inclusion) : List Join :=
  match x.route host with
  | some (.direct hostColumn targetColumn) =>
      [x.targetJoin home ⟨host.table, hostColumn⟩ ⟨x.aliasName, targetColumn⟩]
  | some (.linked through otherKey) =>
      [x.linkJoin home host through,
        x.targetJoin home ⟨throughAlias x.aliasName, otherKey⟩ ⟨x.aliasName, x.target.primaryKey⟩]
  | none => []

/-- The columns read of the target. -/
def columns (x : Inclusion) : List String :=
  (x.target.projection x.request.columns).toOption.getD []

def shape (x : Inclusion) : IncludeShape :=
  ⟨x.association.kind, x.aliasName, x.target.primaryKey, x.columns⟩

/-- The inclusion is what its include means on the host. -/
structure Resolved (r : Registry) (host : Entity) (x : Inclusion) : Prop where
  found : r.findAssociation host x.request = .ok (x.association, x.target)
  linked : x.association.kind = .belongsToMany →
    ∃ l, x.link = some l ∧ r.link host.name x.association = .ok l
  filtered : ∃ k, (Filter.predicate? x.request.filter).Yields x.filter k

/-- A resolved inclusion leads to its target. -/
theorem Resolved.exists_route {r : Registry} {host : Entity} {x : Inclusion}
    (h : x.Resolved r host) : ∃ ρ, x.route host = some ρ := by
  have hl := h.linked
  unfold route
  rcases hk : x.association.kind with _ | _ | _ | _
  · exact ⟨_, rfl⟩
  · exact ⟨_, rfl⟩
  · exact ⟨_, rfl⟩
  · obtain ⟨l, hl, -⟩ := hl hk
    rw [hl]
    exact ⟨_, rfl⟩

end Inclusion

namespace Registry

/-! ### Joins -/

theorem joinsOf_eq_ok {r : Registry} {host target : Entity} {a : Association} {i : Include}
    {filter : Option Predicate} {js : List Join}
    (h : r.joinsOf host a target (.ofRequired i.required) filter = .ok js) :
    ∃ link, (a.kind = .belongsToMany → ∃ l, link = some l ∧ r.link host.name a = .ok l) ∧
      js = Inclusion.joins r.home host ⟨i, a, target, link, filter⟩ := by
  unfold joinsOf at h
  cases hk : a.kind with
  | belongsTo =>
      rw [hk] at h
      refine ⟨none, by simp, ?_⟩
      rw [← Except.ok.inj h]
      simp [Inclusion.joins, Inclusion.route, hk, Inclusion.targetJoin, Inclusion.aliasName,
        Inclusion.kind]
  | hasOne | hasMany =>
      rw [hk] at h
      refine ⟨none, by simp, ?_⟩
      rw [← Except.ok.inj h]
      simp [Inclusion.joins, Inclusion.route, hk, Inclusion.targetJoin, Inclusion.aliasName,
        Inclusion.kind]
  | belongsToMany =>
      rw [hk] at h
      obtain ⟨⟨through, otherKey⟩, hl, h⟩ := bind_eq_ok h
      refine ⟨some (through, otherKey), fun _ => ⟨_, rfl, hl⟩, ?_⟩
      rw [← Except.ok.inj h]
      simp [Inclusion.joins, Inclusion.route, hk, Inclusion.targetJoin, Inclusion.linkJoin,
        Inclusion.aliasName, Inclusion.kind]

/-- The joins of one include are those of its inclusion. -/
theorem yields_includeJoins {r : Registry} {host : Entity} {i : Include} {js : List Join} {k : Nat}
    (h : (r.includeJoins host i).Yields js k) :
    ∃ x : Inclusion, x.request = i ∧ x.Resolved r host ∧ js = x.joins r.home host := by
  obtain ⟨⟨a, target⟩, i₁, j₁, hf, h₁, -⟩ := yields_bind h
  obtain ⟨filter, i₂, j₂, hp, h₂, -⟩ := yields_bind h₁
  obtain ⟨hf, -⟩ := yields_lift hf
  obtain ⟨hj, -⟩ := yields_lift h₂
  obtain ⟨link, hl, rfl⟩ := joinsOf_eq_ok hj
  exact ⟨⟨i, a, target, link, filter⟩, rfl, ⟨hf, hl, i₂, hp⟩, rfl⟩

/-- The joins of a list of includes are those of their inclusions, in order. -/
theorem yields_joins {r : Registry} {host : Entity} {is : List Include} {js : List Join} {k : Nat}
    (h : (r.joins host is).Yields js k) :
    ∃ xs : List Inclusion, xs.map Inclusion.request = is ∧ (∀ x ∈ xs, x.Resolved r host) ∧
      js = xs.flatMap (Inclusion.joins r.home host) := by
  induction is generalizing js k with
  | nil =>
      obtain ⟨rfl, -⟩ := yields_pure h
      exact ⟨[], rfl, by simp, rfl⟩
  | cons i is ih =>
      obtain ⟨js₁, i₁, j₁, hi, h₁, -⟩ := yields_bind h
      obtain ⟨js₂, i₂, j₂, his, h₂, -⟩ := yields_bind h₁
      obtain ⟨rfl, -⟩ := yields_pure h₂
      obtain ⟨x, rfl, hx, rfl⟩ := yields_includeJoins hi
      obtain ⟨xs, rfl, hxs, rfl⟩ := ih his
      refine ⟨x :: xs, rfl, ?_, rfl⟩
      simpa using ⟨hx, hxs⟩

/-! ### Shapes -/

/-- Each include takes its aliases one after the other. -/
theorem includeShapes_cons (r : Registry) (host : Entity) (used : List String) (i : Include)
    (is : List Include) : r.includeShapes host used (i :: is) = do
      let m ← r.findAssociation host i
      let used' ← m.1.aliases.foldlM takeAlias used
      let columns ← m.2.projection i.columns
      let shapes ← r.includeShapes host used' is
      return ⟨m.1.kind, ⟨m.1.aliasName, m.2.primaryKey, columns⟩⟩ :: shapes := by
  rw [includeShapes]
  congr 1
  funext ⟨a, target⟩
  by_cases hk : a.kind = .belongsToMany
  · simp only [Association.aliases, if_pos hk, List.foldlM_cons, List.foldlM_nil, bind_assoc,
      pure_bind]
  · simp only [Association.aliases, if_neg hk, List.foldlM_cons, List.foldlM_nil, bind_assoc,
      pure_bind]
    rfl

theorem includeShapes_cons_eq_ok {r : Registry} {host : Entity} {i : Include}
    {is : List Include} {used : List String} {shapes : List IncludeShape}
    (h : r.includeShapes host used (i :: is) = .ok shapes) :
    ∃ a target columns used' rest, r.findAssociation host i = .ok (a, target) ∧
      target.projection i.columns = .ok columns ∧ r.includeShapes host used' is = .ok rest ∧
      shapes = ⟨a.kind, ⟨a.aliasName, target.primaryKey, columns⟩⟩ :: rest := by
  rw [includeShapes_cons] at h
  obtain ⟨⟨a, target⟩, hf, h⟩ := bind_eq_ok h
  obtain ⟨used', -, h⟩ := bind_eq_ok h
  obtain ⟨columns, hc, h⟩ := bind_eq_ok h
  obtain ⟨rest, hr, h⟩ := bind_eq_ok h
  exact ⟨a, target, columns, used', rest, hf, hc, hr, (Except.ok.inj h).symm⟩

/-- The shapes of a list of includes are those of their inclusions. -/
theorem includeShapes_eq_ok {r : Registry} {host : Entity} {xs : List Inclusion}
    (hxs : ∀ x ∈ xs, x.Resolved r host) {used : List String} {shapes : List IncludeShape}
    (h : r.includeShapes host used (xs.map Inclusion.request) = .ok shapes) :
    shapes = xs.map Inclusion.shape ∧
      ∀ x ∈ xs, x.target.projection x.request.columns = .ok x.columns := by
  induction xs generalizing used shapes with
  | nil =>
      cases h
      simp
  | cons x xs ih =>
      obtain ⟨a, target, columns, used', rest, hf, hc, hr, rfl⟩ := includeShapes_cons_eq_ok h
      rw [(hxs x (by simp)).found] at hf
      obtain ⟨rfl, rfl⟩ := Prod.mk.inj (Except.ok.inj hf)
      obtain ⟨rfl, hp⟩ := ih (fun y hy => hxs y (by simp [hy])) hr
      have hx : x.columns = columns := by rw [Inclusion.columns, hc]; rfl
      subst hx
      refine ⟨rfl, ?_⟩
      simpa using ⟨hc, hp⟩

theorem shape_eq_ok {r : Registry} {host : Entity} {xs : List Inclusion}
    (hxs : ∀ x ∈ xs, x.Resolved r host) {columns : Option (List String)} {s : Shape}
    (h : r.shape host columns (xs.map Inclusion.request) = .ok s) :
    ∃ chosen, host.projection columns = .ok chosen ∧
      s = ⟨⟨host.table, host.primaryKey, chosen⟩, xs.map Inclusion.shape⟩ ∧
      ∀ x ∈ xs, x.target.projection x.request.columns = .ok x.columns := by
  obtain ⟨chosen, hc, h⟩ := bind_eq_ok h
  obtain ⟨shapes, hs, h⟩ := bind_eq_ok h
  obtain ⟨rfl, hp⟩ := includeShapes_eq_ok hxs hs
  exact ⟨chosen, hc, (Except.ok.inj h).symm, hp⟩

/-! ### Plans -/

/-- What a source that is made consists of. -/
theorem source_eq_ok {r : Registry} {host : Entity} {o : FindOptions} {s : Source}
    (h : r.source host o = .ok s) :
    (∃ k, (Filter.predicate? o.filter).Yields s.filter k) ∧
      s.aliasName = host.table ∧
      requireDistinct [host.table] s.joins = .ok () ∧
      ∃ xs : List Inclusion, xs.map Inclusion.request = o.includes ∧
        (∀ x ∈ xs, x.Resolved r host) ∧ s.joins = xs.flatMap (Inclusion.joins r.home host) := by
  unfold source at h
  split at h
  · cases h
  · obtain ⟨filter, hf, h⟩ := bind_eq_ok h
    obtain ⟨joins, hj, h⟩ := bind_eq_ok h
    obtain ⟨_, hd, h⟩ := bind_eq_ok h
    cases h
    have hf' : (Filter.predicate? o.filter).Yields filter (Filter.predicate? o.filter).drawn := by
      rw [Yields, ← hf]
    have hj' : (r.joins host o.includes).Yields joins (r.joins host o.includes).drawn := by
      rw [Yields, ← hj]
    exact ⟨⟨_, hf'⟩, rfl, hd, yields_joins hj'⟩

theorem table_of_source {r : Registry} {host : Entity} {o : FindOptions} {s : Source}
    (h : r.source host o = .ok s) : s.table = r.home.qualify host.table := by
  unfold source at h
  split at h
  · cases h
  · obtain ⟨filter, -, h⟩ := bind_eq_ok h
    obtain ⟨joins, -, h⟩ := bind_eq_ok h
    obtain ⟨_, -, h⟩ := bind_eq_ok h
    cases h
    rfl

theorem select_eq_ok {r : Registry} {name : String} {o : FindOptions} {s : Select}
    (h : r.select name o = .ok s) :
    ∃ host, r.get? name = some host ∧ r.source host o = .ok s.source ∧
      r.shape host o.columns o.includes = .ok s.shape := by
  obtain ⟨host, hh, h⟩ := bind_eq_ok h
  obtain ⟨source, hs, h⟩ := bind_eq_ok h
  obtain ⟨shape, hp, h⟩ := bind_eq_ok h
  obtain ⟨group, -, h⟩ := bind_eq_ok h
  obtain ⟨order, -, h⟩ := bind_eq_ok h
  cases h
  exact ⟨host, entity_eq_ok hh, hs, hp⟩

/-- What stands behind the source of a find that is made. -/
theorem clauses_of_select {r : Registry} {name : String} {o : FindOptions} {s : Select}
    (h : r.select name o = .ok s) {host : Entity} (hh : r.get? name = some host) :
    o.group.mapM (r.resolve host s.source.joins) = .ok s.group ∧
      o.order.mapM (fun t => do
        let c ← r.resolve host s.source.joins t.column
        return (c, t.direction)) = .ok s.order ∧
      s.limit = o.limit ∧ s.offset = o.offset := by
  obtain ⟨host', hh', h⟩ := bind_eq_ok h
  cases hh.symm.trans (entity_eq_ok hh')
  obtain ⟨source, -, h⟩ := bind_eq_ok h
  obtain ⟨shape, -, h⟩ := bind_eq_ok h
  obtain ⟨group, hg, h⟩ := bind_eq_ok h
  obtain ⟨order, ho, h⟩ := bind_eq_ok h
  cases h
  exact ⟨hg, ho, rfl, rfl⟩

theorem count_eq_ok {r : Registry} {name : String} {o : FindOptions} {c : Count}
    (h : r.count name o = .ok c) :
    ∃ host, r.get? name = some host ∧ r.source host o = .ok c.source ∧
      c.key = ⟨host.table, host.primaryKey⟩ := by
  obtain ⟨host, hh, h⟩ := bind_eq_ok h
  obtain ⟨source, hs, h⟩ := bind_eq_ok h
  cases h
  exact ⟨host, entity_eq_ok hh, hs, rfl⟩

end Registry

end RowGraph
