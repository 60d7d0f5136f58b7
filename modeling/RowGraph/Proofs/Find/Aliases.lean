import RowGraph.Proofs.Find.Rows
import RowGraph.Proofs.Find.Valid

/-!
# Proofs — Find — two checks of the aliases

The aliases of a find are checked twice: when its tables are joined, join by join, and when its
shape is made, include by include, where an include that goes through a link has two.  Both take one
alias after another, and are refused at the first that is taken already (`Requires` of
`freshAliases`).  The joins stand under the aliases of the includes in the same order, so **the two
checks agree** (`Registry.alias_checks_agree`) wherever the includes can be resolved.

Behind joins under different aliases a shape can only lack a column.
-/

namespace RowGraph

namespace Registry

variable {r : Registry} {host : Entity}

/-- The includes mean associations of the host, and columns that are asked for are declared. -/
structure Resolves (r : Registry) (host : Entity) (columns : Option (List String))
    (is : List Include) : Prop where
  columns : host.Offers columns
  includes : ∀ i ∈ is, ∃ m, r.findAssociation host i = .ok m ∧ m.2.Offers i.columns
  filters : ∀ i ∈ is, Filter.wellFormed (i.filter.getD [])

/-- The includes take the aliases of their associations in order. -/
theorem requires_includeShapes {used : List String} {is : List Include}
    (h : ∀ i ∈ is, ∃ m, r.findAssociation host i = .ok m ∧ m.2.Offers i.columns) :
    Requires (r.includeShapes host used is)
      (freshAliases used ((r.meanings host is).flatMap (·.1.aliases))) := by
  induction is generalizing used with
  | nil => exact requires_ok []
  | cons i is ih =>
      obtain ⟨⟨m, hm, hoffers⟩, his⟩ := List.forall_mem_cons.mp h
      obtain ⟨columns, hcolumns⟩ := (settles_projection m.2 i.columns).ok_iff.mpr hoffers
      rw [includeShapes_cons, meanings_cons hm, List.flatMap_cons, freshAliases_append, hm]
      refine (requires_foldlM_takeAlias used m.1.aliases).bind fun used' hused => ?_
      rw [foldlM_takeAlias_eq_ok hused, hcolumns]
      exact (ih his).bind_ok

theorem Resolves.requires_shape {columns : Option (List String)} {is : List Include}
    (h : r.Resolves host columns is) :
    Requires (r.shape host columns is)
      (freshAliases [host.table] ((r.meanings host is).flatMap (·.1.aliases))) := by
  obtain ⟨chosen, hchosen⟩ := (settles_projection host columns).ok_iff.mpr h.columns
  rw [shape, hchosen]
  exact (requires_includeShapes h.includes).bind_ok

/-! ### Joins and shapes, one by one -/

/-- The aliases of the links that are joined on the way to the targets. -/
def linkAliases (r : Registry) (host : Entity) (is : List Include) : List String :=
  ((r.meanings host is).filter (·.1.kind == .belongsToMany)).map (throughAlias ·.1.aliasName)

/-- The shape is that of the joined table. -/
structure Shows (r : Registry) (host : Entity) (x : IncludeShape) (j : Join) : Prop where
  aliasName : x.table.aliasName = j.aliasName
  primaryKey : ∃ e, r.get? j.entity = some e ∧ x.table.primaryKey = e.primaryKey
  /-- A list of rows is read exactly for the associations to many. -/
  many : ∃ a, host.association? j.aliasName = some a ∧
    (x.kind.isMany ↔ a.kind = .hasMany ∨ a.kind = .belongsToMany)

theorem mem_linkAliases {is : List Include} {aliasName : String} :
    aliasName ∈ r.linkAliases host is ↔ ∃ m ∈ r.meanings host is,
      m.1.kind = .belongsToMany ∧ throughAlias m.1.aliasName = aliasName := by
  simp [linkAliases, and_assoc]

/-- Where no alias is taken twice a target's is not that of a link. -/
theorem aliasName_not_mem_linkAliases {is : List Include}
    (hn : ((r.meanings host is).flatMap (·.1.aliases)).Nodup) {m : Association × Entity}
    (hm : m ∈ r.meanings host is) : m.1.aliasName ∉ r.linkAliases host is := by
  rw [mem_linkAliases]
  rintro ⟨l, hl, hk, ha⟩
  have hlink : throughAlias l.1.aliasName ∈ l.1.aliases := by
    rw [Association.aliases, if_pos hk]
    exact List.mem_cons_self
  by_cases heq : l = m
  · exact throughAlias_ne m.1.aliasName (heq ▸ ha)
  · have : Std.Symm (Function.onFun List.Disjoint fun m : Association × Entity => m.1.aliases) :=
      ⟨fun _ _ h => List.disjoint_symm h⟩
    have hdisjoint := (List.nodup_flatMap.mp hn).2.forall hl hm heq
    exact hdisjoint hlink (ha ▸ m.1.aliasName_mem_aliases)

/-- Of the joins of an include the one of its target is no link. -/
theorem filter_joins {x : Inclusion} (hx : x.Resolved r host) (home : Namespace)
    {links : List String} (hown : x.aliasName ∉ links)
    (hlink : x.association.kind = .belongsToMany → throughAlias x.aliasName ∈ links) :
    ∃ j, (x.joins home host).filter (fun j => j.aliasName ∉ links) = [j] ∧
      j.entity = x.target.name ∧ j.aliasName = x.aliasName := by
  have htarget (left right : TableColumn) :
      (x.targetJoin home left right).aliasName = x.aliasName := rfl
  have hl := hx.linked
  rw [Inclusion.joins, Inclusion.route]
  cases hk : x.association.kind with
  | belongsToMany =>
      obtain ⟨⟨through, otherKey⟩, hl, -⟩ := hl hk
      have hthrough : (x.linkJoin home host through).aliasName = throughAlias x.aliasName := rfl
      rw [hl]
      refine ⟨x.targetJoin home ⟨throughAlias x.aliasName, otherKey⟩
        ⟨x.aliasName, x.target.primaryKey⟩, ?_, rfl, rfl⟩
      simp [htarget, hthrough, hown, hlink hk]
  | belongsTo =>
      refine ⟨x.targetJoin home ⟨host.table, x.association.foreignKey⟩
        ⟨x.aliasName, x.target.primaryKey⟩, ?_, rfl, rfl⟩
      simp [htarget, hown]
  | hasOne | hasMany =>
      refine ⟨x.targetJoin home ⟨host.table, host.primaryKey⟩
        ⟨x.aliasName, x.association.foreignKey⟩, ?_, rfl, rfl⟩
      simp [htarget, hown]

/-- The shape of an inclusion is that of its target's table. -/
theorem Lawful.shows (hr : r.Lawful) (hh : host ∈ r.entities) {x : Inclusion}
    (hx : x.Resolved r host) {j : Join} (he : j.entity = x.target.name)
    (ha : j.aliasName = x.aliasName) : r.Shows host x.shape j where
  aliasName := ha.symm
  primaryKey := by
    obtain ⟨ht, -, -⟩ := findAssociation_eq_ok hx.found
    refine ⟨x.target, ?_, rfl⟩
    rw [he, name_of_get? ht, ht]
  many := by
    obtain ⟨-, -, hm⟩ := findAssociation_eq_ok hx.found
    refine ⟨x.association, ?_, ?_⟩
    · rw [ha]
      exact hr.association?_of_mem hh hm
    · have hkind : x.shape.kind = x.association.kind := rfl
      rw [hkind]
      cases x.association.kind <;> decide

theorem Lawful.shows_all (hr : r.Lawful) (hh : host ∈ r.entities) {xs : List Inclusion}
    (hxs : ∀ x ∈ xs, x.Resolved r host) {links : List String}
    (hown : ∀ x ∈ xs, x.aliasName ∉ links)
    (hlink : ∀ x ∈ xs, x.association.kind = .belongsToMany → throughAlias x.aliasName ∈ links) :
    List.Forall₂ (r.Shows host) (xs.map Inclusion.shape)
      ((xs.flatMap (Inclusion.joins r.home host)).filter fun j => j.aliasName ∉ links) := by
  induction xs with
  | nil => exact .nil
  | cons x xs ih =>
      obtain ⟨hx, hxs⟩ := List.forall_mem_cons.mp hxs
      obtain ⟨ho, hown⟩ := List.forall_mem_cons.mp hown
      obtain ⟨hl, hlink⟩ := List.forall_mem_cons.mp hlink
      obtain ⟨j, hj, he, ha⟩ := filter_joins hx r.home ho hl
      rw [List.flatMap_cons, List.filter_append, hj, List.map_cons, List.singleton_append]
      exact .cons (hr.shows hh hx he ha) (ih hxs hown hlink)

/-- **The two checks of the aliases agree.**  Where the includes can be resolved, one is passed if
the other is, and both are refused for the same alias.  The joins that are no links are then the
includes of the shape, in order.  Once a source is made, a shape is refused only for a column that
is not declared. -/
theorem alias_checks_agree {r : Registry} (hr : r.Reached) {name : String} {host : Entity}
    (hh : r.get? name = some host) :
    (∀ columns is, r.Resolves host columns is →
      ∃ js, (r.joins host is).result = .ok js ∧
        (∀ a, requireDistinct [host.table] js = .error (.ambiguousAlias a) ↔
          r.shape host columns is = .error (.ambiguousAlias a)) ∧
        (requireDistinct [host.table] js = .ok () ↔ ∃ s, r.shape host columns is = .ok s) ∧
        ∀ s, r.shape host columns is = .ok s → List.Forall₂ (r.Shows host) s.includes
          (js.filter fun j => j.aliasName ∉ r.linkAliases host is)) ∧
    ∀ o source e, r.source host o = .ok source → r.shape host o.columns o.includes = .error e →
      ∃ entity column, e = .unknownAttribute entity column := by
  have hmem := mem_of_get? hh
  refine ⟨fun columns is h => ?_, fun o source e hs he => ?_⟩
  · obtain ⟨js, hjs⟩ := (hr.lawful.settled_joins hmem is).ok_iff.mpr fun i hi => by
      obtain ⟨m, hm, -⟩ := h.includes i hi
      exact ⟨⟨m, (hr.lawful.findAssociation_eq_ok_iff hmem).mp hm⟩, h.filters i hi⟩
    have hyields : (r.joins host is).Yields js (r.joins host is).drawn := by
      rw [Draw.Yields, ← hjs]
    obtain ⟨xs, rfl, hxs, rfl⟩ := yields_joins hyields
    have haliases := map_joins_of_resolved hxs
    have hdistinct := requires_requireDistinct [host.table]
      (xs.flatMap (Inclusion.joins r.home host))
    rw [haliases] at hdistinct
    obtain ⟨hok, herror⟩ := hdistinct.agree h.requires_shape
    have hpass : requireDistinct [host.table] (xs.flatMap (Inclusion.joins r.home host)) = .ok () ↔
        ∃ s, r.shape host columns (xs.map Inclusion.request) = .ok s :=
      ⟨fun hd => hok.mp ⟨(), hd⟩, fun hs => (hok.mpr hs).elim fun _ hd => hd⟩
    refine ⟨_, hjs, fun a => herror (.ambiguousAlias a), hpass, fun s hs => ?_⟩
    obtain ⟨chosen, -, rfl, -⟩ := shape_eq_ok hxs hs
    have hn := requireDistinct_eq_ok (hpass.mpr ⟨_, hs⟩) (List.nodup_singleton _)
    rw [haliases] at hn
    have hmeans : ∀ x ∈ xs, (x.association, x.target) ∈
        r.meanings host (xs.map Inclusion.request) := by
      intro x hx
      rw [meanings_of_resolved hxs]
      exact List.mem_map_of_mem hx
    exact hr.lawful.shows_all hmem hxs
      (fun x hx => aliasName_not_mem_linkAliases hn.of_append_right (hmeans x hx))
      fun x hx hk => mem_linkAliases.mpr ⟨_, hmeans x hx, hk, rfl⟩
  · obtain ⟨-, his, hn⟩ := (hr.lawful.settled_source hmem o).ok_iff.mp ⟨source, hs⟩
    have hms := hr.lawful.forall₂_meanings hmem fun i hi => (his i hi).1
    exact (hr.lawful.settles_shape hmem hms hn).reason e he

/-- The tags of a book, asked for twice. -/
def tagsTwice : List Include := [⟨"tag", some "tags", none, false, none⟩,
  ⟨"tag", some "tags", none, true, none⟩]

theorem resolves_of_bare {is : List Include}
    (h : ∀ i ∈ is, i.columns = none ∧ i.filter = none ∧ ∃ m, r.findAssociation host i = .ok m) :
    r.Resolves host none is where
  columns := fun _ hc => by cases hc
  includes i hi := by
    obtain ⟨hc, -, m, hm⟩ := h i hi
    refine ⟨m, hm, ?_⟩
    rw [hc]
    exact fun _ hc => by cases hc
  filters i hi := by
    rw [(h i hi).2.1]
    rfl

/-- The tags of the catalogue go through a link, and a second time they meet its alias first. -/
theorem alias_checks_agree_library :
    library.Reached ∧ ∃ host, library.get? "book" = some host ∧
      (∃ s js, library.shape host none catalogue.includes = .ok s ∧
        (library.joins host catalogue.includes).result = .ok js ∧
        List.Forall₂ (library.Shows host) s.includes
          (js.filter fun j => j.aliasName ∉ library.linkAliases host catalogue.includes)) ∧
      ∃ js, (library.joins host tagsTwice).result = .ok js ∧
        requireDistinct [host.table] js = .error (.ambiguousAlias "tags_through") := by
  have hh : library.get? "book" = some _ := rfl
  obtain ⟨agree, -⟩ := alias_checks_agree reached_library hh
  refine ⟨reached_library, _, hh, ?_, ?_⟩
  · obtain ⟨js, hjs, -, -, hshows⟩ := agree none catalogue.includes (resolves_of_bare
      (List.forall_mem_cons.mpr ⟨⟨rfl, rfl, _, rfl⟩,
        List.forall_mem_singleton.mpr ⟨rfl, rfl, _, rfl⟩⟩))
    exact ⟨_, js, rfl, hjs, hshows _ rfl⟩
  · obtain ⟨js, hjs, hclash, -⟩ := agree none tagsTwice (resolves_of_bare
      (List.forall_mem_cons.mpr ⟨⟨rfl, rfl, _, rfl⟩,
        List.forall_mem_singleton.mpr ⟨rfl, rfl, _, rfl⟩⟩))
    exact ⟨js, hjs, (hclash "tags_through").mpr rfl⟩

end Registry

end RowGraph
