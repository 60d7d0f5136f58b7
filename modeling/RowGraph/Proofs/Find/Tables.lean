import RowGraph.Proofs.Find.Fresh
import RowGraph.Proofs.Find.Inclusion

/-!
# Proofs — Find — the tables of a find

`Select.Planned` collects what a find that succeeds consists of: its host, its inclusions, its
joins and its shape.

* `Select.Planned.nodup_aliases`: the tables that are read have different aliases, since all
  tables that are joined do;
* `Select.Planned.keyed`: each table is read by different columns, and its
  primary key is one of them.
-/

namespace RowGraph

/-! ### Columns -/

/-- The columns read are different and the primary key is one of them. -/
structure TableShape.Keyed (t : TableShape) : Prop where
  nodup : t.columns.Nodup
  key_mem : t.primaryKey ∈ t.columns

/-- Choosing keeps what is chosen and adds what is requested, each column once. -/
theorem Entity.choose_eq_ok {e : Entity} {chosen requested columns : List String}
    (h : e.choose chosen requested = .ok columns) (hn : chosen.Nodup) :
    columns.Nodup ∧ ∀ c, c ∈ columns ↔ c ∈ chosen ∨ c ∈ requested := by
  induction requested generalizing chosen with
  | nil =>
      cases h
      simpa using hn
  | cons c rest ih =>
      rw [choose] at h
      split at h
      case isFalse => cases h
      case isTrue =>
          -- a column that is chosen already is not chosen again
          by_cases hc : c ∈ chosen
          · rw [if_pos (List.contains_iff_mem.mpr hc)] at h
            obtain ⟨hnd, hm⟩ := ih h hn
            refine ⟨hnd, fun d => ?_⟩
            rw [hm, List.mem_cons]
            constructor
            · rintro (hd | hd)
              · exact .inl hd
              · exact .inr (.inr hd)
            · rintro (hd | rfl | hd)
              · exact .inl hd
              · exact .inl hc
              · exact .inr hd
          · rw [if_neg (by simpa using hc)] at h
            have hn' : (chosen ++ [c]).Nodup := by
              rw [← List.concat_eq_append]
              exact hn.concat hc
            obtain ⟨hnd, hm⟩ := ih h hn'
            refine ⟨hnd, fun d => ?_⟩
            rw [hm, List.mem_append, List.mem_singleton, List.mem_cons, or_assoc]

/-- A projection reads different columns, the primary key among them. -/
theorem Entity.keyed_projection {e : Entity} {requested : Option (List String)}
    {columns : List String} (h : e.projection requested = .ok columns) :
    columns.Nodup ∧ e.primaryKey ∈ columns := by
  cases requested with
  | none =>
      cases h
      exact ⟨e.nodup, e.key_mem⟩
  | some requested =>
      rw [Entity.projection] at h
      by_cases hk : e.primaryKey ∈ requested
      · rw [if_pos (List.contains_iff_mem.mpr hk)] at h
        obtain ⟨hn, hm⟩ := choose_eq_ok h List.nodup_nil
        exact ⟨hn, (hm _).mpr (.inr hk)⟩
      · rw [if_neg (by simpa using hk)] at h
        obtain ⟨hn, hm⟩ := choose_eq_ok h (List.nodup_singleton _)
        exact ⟨hn, (hm _).mpr (.inl (List.mem_singleton_self _))⟩

namespace Registry

/-- An include that is found leads to a defined target. -/
theorem findAssociation_eq_ok {r : Registry} {host target : Entity} {i : Include}
    {a : Association} (h : r.findAssociation host i = .ok (a, target)) :
    r.get? i.target = some target ∧ a.target = target.name ∧ a ∈ host.associations := by
  unfold findAssociation at h
  split at h
  case h_1 => cases h
  case h_2 t ht =>
      dsimp only at h
      split at h
      case h_2 => cases h
      case h_1 b hb =>
          obtain ⟨rfl, rfl⟩ := Prod.mk.inj (Except.ok.inj h)
          have hm := List.find?_some hb
          simp only [Bool.and_eq_true, beq_iff_eq] at hm
          exact ⟨ht, hm.2, List.mem_of_find?_eq_some hb⟩

/-! ### Aliases -/

theorem mem_aliases (home : Namespace) {r : Registry} {host : Entity} {x : Inclusion}
    (hx : x.Resolved r host) : x.aliasName ∈ (x.joins home host).map (·.aliasName) := by
  obtain ⟨ρ, hρ⟩ := hx.exists_route
  rw [Inclusion.joins, hρ]
  cases ρ with
  | direct _ _ => exact List.mem_cons_self
  | linked _ _ => exact List.mem_cons_of_mem _ List.mem_cons_self

/-- The aliases of the targets are among those of the joins. -/
theorem sublist_aliases (home : Namespace) (host : Entity) {r : Registry} {xs : List Inclusion}
    (hxs : ∀ x ∈ xs, x.Resolved r host) :
    (xs.map Inclusion.aliasName).Sublist
      ((xs.flatMap (Inclusion.joins home host)).map (·.aliasName)) := by
  induction xs with
  | nil => exact .slnil
  | cons x xs ih =>
      have hx : [x.aliasName].Sublist ((x.joins home host).map (·.aliasName)) :=
        List.singleton_sublist.mpr (mem_aliases home (hxs x (by simp)))
      rw [List.map_cons, List.flatMap_cons, List.map_append]
      exact hx.append (ih fun y hy => hxs y (by simp [hy]))

end Registry

/-! ### Planned finds -/

/-- A find that is planned: its host, its inclusions, and what they make its joins and its
shape. -/
structure Select.Planned (r : Registry) (name : String) (o : FindOptions) (s : Select)
    (host : Entity) (xs : List Inclusion) : Prop where
  found : r.get? name = some host
  requests : xs.map Inclusion.request = o.includes
  resolved : ∀ x ∈ xs, x.Resolved r host
  joins : s.source.joins = xs.flatMap (Inclusion.joins r.home host)
  sourceAlias : s.source.aliasName = host.table
  rootAlias : s.shape.root.aliasName = host.table
  rootKey : s.shape.root.primaryKey = host.primaryKey
  rootColumns : host.projection o.columns = .ok s.shape.root.columns
  includes : s.shape.includes = xs.map Inclusion.shape
  columns : ∀ x ∈ xs, x.target.projection x.request.columns = .ok x.columns
  aliases : (host.table :: s.source.joins.map (·.aliasName)).Nodup

namespace Registry

/-- **A find that succeeds is planned**, with different aliases for all of its tables. -/
theorem planned_of_select {r : Registry} {name : String} {o : FindOptions} {s : Select}
    (h : r.select name o = .ok s) : ∃ host xs, s.Planned r name o host xs := by
  obtain ⟨host, hh, hs, hp⟩ := select_eq_ok h
  obtain ⟨-, ha, hd, xs, hm, hxs, hj⟩ := source_eq_ok hs
  rw [← hm] at hp
  obtain ⟨chosen, hc, hshape, hcols⟩ := shape_eq_ok hxs hp
  refine ⟨host, xs, hh, hm, hxs, hj, ha, ?_, ?_, ?_, ?_, hcols, ?_⟩
  · rw [hshape]
  · rw [hshape]
  · rw [hshape, hc]
  · rw [hshape]
  · exact requireDistinct_eq_ok hd (List.nodup_singleton _)

end Registry

namespace Select.Planned

variable {r : Registry} {name : String} {o : FindOptions} {s : Select} {host : Entity}
  {xs : List Inclusion}

theorem tables (h : s.Planned r name o host xs) :
    s.shape.tables = s.shape.root :: xs.map fun x => x.shape.table := by
  rw [Shape.tables, h.includes, List.map_map]
  rfl

/-- The tables that are read have different aliases. -/
theorem nodup_aliases (h : s.Planned r name o host xs) :
    (s.shape.tables.map (·.aliasName)).Nodup := by
  have hs := Registry.sublist_aliases r.home host h.resolved
  have ha := h.aliases
  rw [h.joins] at ha
  rw [h.tables, List.map_cons, List.map_map, h.rootAlias]
  exact (hs.cons_cons host.table).nodup ha

/-- Each table is read by different columns, its primary key among them. -/
theorem keyed (h : s.Planned r name o host xs) : ∀ t ∈ s.shape.tables, t.Keyed := by
  intro t ht
  rw [h.tables, List.mem_cons] at ht
  rcases ht with rfl | ht
  · obtain ⟨hn, hk⟩ := Entity.keyed_projection h.rootColumns
    exact ⟨hn, h.rootKey ▸ hk⟩
  · obtain ⟨x, hx, rfl⟩ := List.mem_map.mp ht
    obtain ⟨ht, -, -⟩ := Registry.findAssociation_eq_ok (h.resolved x hx).found
    obtain ⟨hn, hk⟩ := Entity.keyed_projection (h.columns x hx)
    exact ⟨hn, hk⟩

end Select.Planned

end RowGraph
