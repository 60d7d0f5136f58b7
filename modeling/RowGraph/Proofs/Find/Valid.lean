import RowGraph.Proofs.Filter.WellFormed
import RowGraph.Proofs.Find.Labels
import RowGraph.Proofs.Find.Scope

/-!
# Proofs — Find — valid requests

What a find asks for is valid (`Registry.Valid`) if its filters are well-formed, its includes are
associations of the host, no two of its tables stand under one alias, and what is read, grouped by
or ordered by is declared.

Each step of planning settles one of these conditions, and the reason of a refusal is in what was
asked for (`Error.isOfRequest`): entities and links the schema itself speaks of are there.  So **a
find is made exactly if it is valid** (`find_made_iff`).
-/

namespace RowGraph

/-! ### Valid requests -/

theorem Association.aliasName_mem_aliases (a : Association) : a.aliasName ∈ a.aliases := by
  unfold aliases
  split
  · exact List.mem_cons_of_mem _ List.mem_cons_self
  · exact List.mem_cons_self

/-- The columns that are asked for are declared. -/
def Entity.Offers (e : Entity) (columns : Option (List String)) : Prop :=
  ∀ requested ∈ columns, ∀ c ∈ requested, c ∈ e.columnNames

namespace Registry

/-- The include asks for this association of the host, which leads to this entity. -/
structure Means (r : Registry) (host : Entity) (i : Include) (m : Association × Entity) : Prop where
  defined : r.get? i.target = some m.2
  mem : m.1 ∈ host.associations
  leads : m.1.target = i.target
  named : m.1.aliasName = i.aliasName?.getD m.2.table

/-- The tables an association brings in: the link's in front of the target's. -/
def tablesOf (r : Registry) (m : Association × Entity) : Aliases :=
  (if m.1.kind = .belongsToMany then
    (m.1.through.bind r.get?).toList.map (throughAlias m.1.aliasName, ·) else []) ++
    [(m.1.aliasName, m.2)]

/-- A find that can be made, with the associations its includes ask for. -/
structure Valid (r : Registry) (host : Entity) (o : FindOptions)
    (ms : List (Association × Entity)) : Prop where
  includes : List.Forall₂ (r.Means host) o.includes ms
  filter : Filter.wellFormed (o.filter.getD [])
  filters : ∀ i ∈ o.includes, Filter.wellFormed (i.filter.getD [])
  aliases : (host.table :: ms.flatMap (·.1.aliases)).Nodup
  columns : host.Offers o.columns
  targets : List.Forall₂ (fun i m => m.2.Offers i.columns) o.includes ms
  references : ∀ c ∈ o.group ++ o.order.map (·.column),
    Aliases.Declares ((host.table, host) :: ms.flatMap r.tablesOf) (c.on host)

end Registry

/-- The reason is in what was asked for: no entity or link of the schema is missing. -/
def Error.isOfRequest : Error → Bool
  | .linkPartMissing _ _ _ | .unknownEntity _ => false
  | _ => true

/-- Some column is not declared. -/
def Error.IsUndeclared (e : Error) : Prop := ∃ entity column, e = .unknownAttribute entity column

theorem Error.IsUndeclared.isOfRequest {e : Error} (h : e.IsUndeclared) : e.isOfRequest := by
  obtain ⟨entity, column, rfl⟩ := h
  rfl

/-- The result is settled by `P`, and the reason of a refusal is in what was asked for. -/
abbrev Settled {α : Type} (x : Except Error α) (P : Prop) : Prop :=
  Settles (fun e => e.isOfRequest) x P

theorem exists_of_forall₂ {α β : Type} {R : α → β → Prop} {as : List α} {bs : List β}
    (h : List.Forall₂ R as bs) : ∀ a ∈ as, ∃ b, R a b := by
  induction h with
  | nil => exact fun _ h => absurd h List.not_mem_nil
  | cons hab _ ih => exact List.forall_mem_cons.mpr ⟨⟨_, hab⟩, ih⟩

/-! ### Filters, aliases and columns -/

theorem settled_predicate? (f : Option Filter) :
    Settled (Filter.predicate? f).result (Filter.wellFormed (f.getD [])) := by
  refine (Filter.checks_predicate? f).mono fun e he => ?_
  cases e <;> first | rfl | cases he

theorem settled_requireDistinct {used : List String} (hu : used.Nodup) (js : List Join) :
    Settled (requireDistinct used js) (used ++ js.map (·.aliasName)).Nodup := by
  refine ((requires_requireDistinct used js).settles fun q hq => ?_).congr (met_freshAliases hu)
  obtain ⟨a, ha⟩ := reason_freshAliases hq
  rw [ha]
  rfl

theorem settles_projection (e : Entity) (columns : Option (List String)) :
    Settles Error.IsUndeclared (e.projection columns) (e.Offers columns) := by
  have choose : ∀ (requested chosen : List String), Settles Error.IsUndeclared
      (e.choose chosen requested) (∀ c ∈ requested, c ∈ e.columnNames) := by
    intro requested
    induction requested with
    | nil => exact fun chosen => settles_ok chosen fun _ h => absurd h List.not_mem_nil
    | cons c rest ih =>
        intro chosen
        rw [Entity.choose, List.forall_mem_cons, ← Entity.hasColumn_iff]
        split
        case isTrue hc => exact (ih _).congr (and_iff_right hc).symm
        case isFalse hc => exact settles_error ⟨e.name, c, rfl⟩ fun h => hc h.1
  cases columns with
  | none => exact settles_ok _ fun _ h => by cases h
  | some requested => exact (choose requested _).congr (by simp [Entity.Offers])

namespace Registry

variable {r : Registry} {host : Entity}

/-! ### Associations -/

/-- On a lawful registry the association that is found is the one the include asks for. -/
theorem Lawful.findAssociation_eq_ok_iff (hr : r.Lawful) (hh : host ∈ r.entities) {i : Include}
    {m : Association × Entity} : r.findAssociation host i = .ok m ↔ r.Means host i m := by
  obtain ⟨a, target⟩ := m
  constructor
  · intro h
    obtain ⟨ht, hl, hm⟩ := Registry.findAssociation_eq_ok h
    refine ⟨ht, hm, hl.trans (name_of_get? ht), ?_⟩
    rw [aliasName_of_findAssociation h, includeAlias, ht]
    rfl
  · rintro ⟨ht, hm, hl, hn⟩
    have hmeans :
        (a.aliasName == i.aliasName?.getD target.table && a.target == target.name) = true := by
      rw [Bool.and_eq_true, beq_iff_eq, beq_iff_eq]
      exact ⟨hn, hl.trans (name_of_get? ht).symm⟩
    rw [findAssociation, ht]
    dsimp only
    cases hf : host.associations.find? fun a =>
        a.aliasName == i.aliasName?.getD target.table && a.target == target.name with
    | none => exact absurd hmeans (List.find?_eq_none.mp hf a hm)
    | some b =>
        -- no other association of the host has the alias
        have hb := List.find?_some hf
        rw [Bool.and_eq_true, beq_iff_eq] at hb
        rw [List.inj_on_of_nodup_map (hr.aliases host hh) (List.mem_of_find?_eq_some hf) hm
          (hb.1.trans hn.symm)]

theorem Lawful.settled_findAssociation (hr : r.Lawful) (hh : host ∈ r.entities) (i : Include) :
    Settled (r.findAssociation host i) (∃ m, r.Means host i m) where
  ok_iff := exists_congr fun _ => hr.findAssociation_eq_ok_iff hh
  reason e he := by
    unfold findAssociation at he
    split at he
    · cases he
      rfl
    · dsimp only at he
      split at he <;> cases he
      rfl

theorem Lawful.keysDeclared_of_means (hr : r.Lawful) (hh : host ∈ r.entities) {i : Include}
    {m : Association × Entity} (hm : r.Means host i m) : r.KeysDeclared host m.2 m.1 := by
  obtain ⟨target, ht, hk⟩ := (hr.wired host hh m.1 hm.mem).defined
  rw [hm.leads, hm.defined] at ht
  cases ht
  exact hk

theorem Lawful.settled_joinsOf (hr : r.Lawful) (hh : host ∈ r.entities) {i : Include}
    {m : Association × Entity} (hm : r.Means host i m) (kind : JoinKind)
    (filter : Option Predicate) : Settled (r.joinsOf host m.1 m.2 kind filter) True := by
  have hk := hr.keysDeclared_of_means hh hm
  unfold KeysDeclared at hk
  unfold joinsOf
  cases ha : m.1.kind with
  | belongsTo | hasOne | hasMany => exact settles_ok _ trivial
  | belongsToMany =>
      rw [ha] at hk
      obtain ⟨through, otherKey, e, hth, hok, he, -, -⟩ := hk
      have hl : r.link host.name m.1 = .ok (e, otherKey) := by
        rw [link, hth, hok]
        simp [entity, he, bind, Except.bind, pure, Except.pure]
      simp only [hl]
      exact settles_ok _ trivial

/-! ### Joins -/

theorem Lawful.settled_includeJoins (hr : r.Lawful) (hh : host ∈ r.entities) (i : Include) :
    Settled (r.includeJoins host i).result
      ((∃ m, r.Means host i m) ∧ Filter.wellFormed (i.filter.getD [])) := by
  rw [includeJoins, Draw.result_bind]
  refine (hr.settled_findAssociation hh i).bind fun m hm _ => ?_
  have hmeans := (hr.findAssociation_eq_ok_iff hh).mp hm
  obtain ⟨a, target⟩ := m
  dsimp only
  rw [Draw.result_bind]
  refine ((settled_predicate? i.filter).bind fun filter _ _ => ?_).congr (and_iff_left trivial)
  exact hr.settled_joinsOf hh hmeans _ filter

theorem Lawful.settled_joins (hr : r.Lawful) (hh : host ∈ r.entities) (is : List Include) :
    Settled (r.joins host is).result
      (∀ i ∈ is, (∃ m, r.Means host i m) ∧ Filter.wellFormed (i.filter.getD [])) := by
  induction is with
  | nil => exact settles_ok [] fun _ h => absurd h List.not_mem_nil
  | cons i is ih =>
      rw [joins, Draw.result_bind, List.forall_mem_cons]
      refine (hr.settled_includeJoins hh i).bind fun js _ _ => ?_
      rw [Draw.result_bind]
      exact ih.bind_ok

/-! ### Sources -/

/-- The associations that includes ask for, as far as they are found. -/
def meanings (r : Registry) (host : Entity) (is : List Include) : List (Association × Entity) :=
  is.filterMap fun i => (r.findAssociation host i).toOption

theorem meanings_cons {i : Include} {m : Association × Entity}
    (hm : r.findAssociation host i = .ok m) (is : List Include) :
    r.meanings host (i :: is) = m :: r.meanings host is := by
  rw [meanings, List.filterMap_cons, hm]
  rfl

theorem Lawful.eq_meanings (hr : r.Lawful) (hh : host ∈ r.entities) {is : List Include}
    {ms : List (Association × Entity)} (h : List.Forall₂ (r.Means host) is ms) :
    ms = r.meanings host is := by
  induction h with
  | nil => rfl
  | cons hm _ ih => rw [meanings_cons ((hr.findAssociation_eq_ok_iff hh).mpr hm), ih]

theorem Lawful.forall₂_meanings (hr : r.Lawful) (hh : host ∈ r.entities) {is : List Include}
    (h : ∀ i ∈ is, ∃ m, r.Means host i m) :
    List.Forall₂ (r.Means host) is (r.meanings host is) := by
  induction is with
  | nil => exact .nil
  | cons i is ih =>
      obtain ⟨⟨m, hm⟩, his⟩ := List.forall_mem_cons.mp h
      rw [meanings_cons ((hr.findAssociation_eq_ok_iff hh).mpr hm)]
      exact .cons hm (ih his)

theorem meanings_of_resolved {xs : List Inclusion} (hxs : ∀ x ∈ xs, x.Resolved r host) :
    r.meanings host (xs.map (·.request)) = xs.map fun x => (x.association, x.target) := by
  induction xs with
  | nil => rfl
  | cons x xs ih =>
      obtain ⟨hx, hxs⟩ := List.forall_mem_cons.mp hxs
      rw [List.map_cons, meanings_cons hx.found, ih hxs, List.map_cons]

end Registry

namespace Inclusion.Resolved

variable {r : Registry} {host : Entity} {x : Inclusion}

theorem map_joins (h : x.Resolved r host) (home : Namespace) :
    (x.joins home host).map (·.aliasName) = x.association.aliases := by
  have hl := h.linked
  rw [joins, route, Association.aliases]
  cases hk : x.association.kind with
  | belongsToMany =>
      obtain ⟨l, hl, -⟩ := hl hk
      rw [hl]
      rfl
  | belongsTo | hasOne | hasMany => rfl

theorem tables_eq (h : x.Resolved r host) :
    x.tables host = r.tablesOf (x.association, x.target) := by
  have hl := h.linked
  rw [tables, route, Registry.tablesOf]
  cases hk : x.association.kind with
  | belongsToMany =>
      obtain ⟨⟨through, otherKey⟩, hl, hlink⟩ := hl hk
      obtain ⟨name, hth, -, he⟩ := Registry.link_eq_ok hlink
      simp [hl, hth, he, aliasName]
  | belongsTo | hasOne | hasMany => rfl

end Inclusion.Resolved

namespace Registry

variable {r : Registry} {host : Entity}

theorem map_joins_of_resolved {xs : List Inclusion} (hxs : ∀ x ∈ xs, x.Resolved r host) :
    (xs.flatMap (Inclusion.joins r.home host)).map (·.aliasName) =
      (r.meanings host (xs.map (·.request))).flatMap (·.1.aliases) := by
  rw [meanings_of_resolved hxs, List.flatMap_map, List.map_flatMap]
  exact List.flatMap_congr fun x hx => (hxs x hx).map_joins r.home

/-- A source is made if the filters are well-formed, the includes are associations of the host, and
no two tables stand under one alias. -/
theorem Lawful.settled_source (hr : r.Lawful) (hh : host ∈ r.entities) (o : FindOptions) :
    Settled (r.source host o)
      (Filter.wellFormed (o.filter.getD []) ∧
        (∀ i ∈ o.includes, (∃ m, r.Means host i m) ∧ Filter.wellFormed (i.filter.getD [])) ∧
        (host.table :: (r.meanings host o.includes).flatMap (·.1.aliases)).Nodup) := by
  unfold source
  split
  case isTrue h =>
      -- an include that takes the root's alias is found out before the others are looked at
      obtain ⟨i, hi, ha⟩ := List.any_eq_true.mp h
      refine settles_error rfl ?_
      rintro ⟨-, his, hn⟩
      obtain ⟨⟨m, hm⟩, -⟩ := his i hi
      have hfound := (hr.findAssociation_eq_ok_iff hh).mpr hm
      have hmem : m ∈ r.meanings host o.includes :=
        List.mem_filterMap.mpr ⟨i, hi, by rw [hfound]; rfl⟩
      have hname : m.1.aliasName = host.table := by
        rw [hm.named, beq_iff_eq.mp ha]
        rfl
      refine (List.nodup_cons.mp hn).1 (List.mem_flatMap.mpr ⟨m, hmem, ?_⟩)
      rw [← hname]
      exact m.1.aliasName_mem_aliases
  case isFalse =>
      refine (settled_predicate? o.filter).bind fun filter _ _ => ?_
      refine (hr.settled_joins hh o.includes).bind fun js hjs _ => ?_
      have hyields : (r.joins host o.includes).Yields js (r.joins host o.includes).drawn := by
        rw [Draw.Yields, ← hjs]
      obtain ⟨xs, hm, hxs, rfl⟩ := yields_joins hyields
      rw [← hm, ← map_joins_of_resolved hxs]
      exact (settled_requireDistinct (List.nodup_singleton host.table) _).bind_ok

/-! ### Shapes -/

/-- Where no alias is taken twice only a column can be missing. -/
theorem Lawful.settles_includeShapes (hr : r.Lawful) (hh : host ∈ r.entities) {is : List Include}
    {ms : List (Association × Entity)} (hm : List.Forall₂ (r.Means host) is ms)
    {used : List String} (hn : (used ++ ms.flatMap (·.1.aliases)).Nodup) :
    Settles Error.IsUndeclared (r.includeShapes host used is)
      (List.Forall₂ (fun i m => m.2.Offers i.columns) is ms) := by
  induction hm generalizing used with
  | nil => exact settles_ok [] .nil
  | @cons i m is ms hm _ ih =>
      have hperm : (used ++ (m :: ms).flatMap (·.1.aliases)).Perm
          ((m.1.aliases.reverse ++ used) ++ ms.flatMap (·.1.aliases)) := by
        rw [List.flatMap_cons, ← List.append_assoc]
        have hp : (used ++ m.1.aliases).Perm (m.1.aliases.reverse ++ used) :=
          List.perm_append_comm.trans ((List.reverse_perm m.1.aliases).symm.append_right used)
        exact hp.append_right _
      have hn' := hperm.nodup_iff.mp hn
      rw [includeShapes_cons, (hr.findAssociation_eq_ok_iff hh).mpr hm, List.forall₂_cons]
      have hused := foldlM_takeAlias (List.Nodup.of_append_left hn')
      simp only [bind, Except.bind, hused]
      exact (settles_projection m.2 i.columns).bind fun _ _ _ => (ih hn').bind_ok

theorem Lawful.settles_shape (hr : r.Lawful) (hh : host ∈ r.entities)
    {columns : Option (List String)} {is : List Include} {ms : List (Association × Entity)}
    (hm : List.Forall₂ (r.Means host) is ms)
    (hn : (host.table :: ms.flatMap (·.1.aliases)).Nodup) :
    Settles Error.IsUndeclared (r.shape host columns is)
      (host.Offers columns ∧ List.Forall₂ (fun i m => m.2.Offers i.columns) is ms) :=
  (settles_projection host columns).bind fun _ _ _ =>
    (hr.settles_includeShapes hh hm hn).bind_ok

/-! ### References -/

/-- A reference is resolved if it is declared. -/
theorem settled_resolve {js : List Join} {Δ : Aliases} {root : Entity}
    (hj : Aliases.Joined r [(root.table, root)] js Δ) (hn : (Δ.map (·.1)).Nodup) (c : ColumnRef) :
    Settled (r.resolve root js c) (Δ.Declares (c.on root)) := by
  -- the owner is the one table under its alias, so it has to declare the column
  have column : ∀ {owner : Entity}, ((c.on root).aliasName, owner) ∈ Δ →
      Settled (if owner.hasColumn c.column then (pure (c.on root) : Except Error TableColumn)
        else .error (.unknownAttribute owner.name c.column)) (Δ.Declares (c.on root)) := by
    intro owner ho
    split
    case isTrue hc => exact settles_ok _ ⟨owner, ho, Entity.hasColumn_iff.mp hc⟩
    case isFalse hc =>
        refine settles_error rfl ?_
        rintro ⟨e, he, hcol⟩
        obtain ⟨-, rfl⟩ := Prod.mk.inj (List.inj_on_of_nodup_map hn he ho rfl)
        exact hc (Entity.hasColumn_iff.mpr hcol)
  have haliases := hj.aliases
  unfold resolve
  dsimp only
  split
  case isTrue ha =>
      refine column ?_
      rw [ColumnRef.on, ha]
      exact hj.subset List.mem_cons_self
  case isFalse ha =>
      split
      case h_1 j hfind =>
          obtain ⟨e, he, hm⟩ := hj.mem (List.mem_of_find?_eq_some hfind)
          have hname : j.aliasName = (c.on root).aliasName :=
            beq_iff_eq.mp (List.find?_some (p := fun j : Join => j.aliasName == _) hfind)
          have hentity : r.entity j.entity = .ok e := by rw [entity, he]
          rw [hname] at hm
          simp only [hentity]
          exact column hm
      case h_2 hfind =>
          refine settles_error rfl ?_
          rintro ⟨e, he, -⟩
          have hm : (c.on root).aliasName ∈ Δ.map (·.1) := List.mem_map_of_mem he
          rw [haliases] at hm
          rcases List.mem_cons.mp hm with hm | hm
          · exact ha hm
          · obtain ⟨j, hj', hj''⟩ := List.mem_map.mp hm
            exact List.find?_eq_none.mp hfind j hj' (beq_iff_eq.mpr hj'')

/-! ### Finds -/

/-- The tables of a source that is made are those of its associations, under different aliases. -/
theorem Lawful.joined_source (hr : r.Lawful) (hh : host ∈ r.entities) {o : FindOptions}
    {s : Source} (hs : r.source host o = .ok s) :
    Aliases.Joined r [(host.table, host)] s.joins
        ((host.table, host) :: (r.meanings host o.includes).flatMap r.tablesOf) ∧
      (((host.table, host) ::
        (r.meanings host o.includes).flatMap r.tablesOf).map (·.1)).Nodup := by
  obtain ⟨-, -, hd, xs, hm, hxs, hj⟩ := source_eq_ok hs
  have htables : (host.table, host) :: (r.meanings host o.includes).flatMap r.tablesOf =
      [(host.table, host)] ++ xs.flatMap (Inclusion.tables host) := by
    rw [← hm, meanings_of_resolved hxs, List.flatMap_map, List.singleton_append]
    exact congrArg _ (List.flatMap_congr fun x hx => (hxs x hx).tables_eq.symm)
  have hjoined := hr.joined_inclusions hh hxs (Γ := [(host.table, host)]) List.mem_cons_self
  rw [← htables, ← hj] at hjoined
  refine ⟨hjoined, ?_⟩
  rw [hjoined.aliases]
  exact requireDistinct_eq_ok hd (List.nodup_singleton _)

theorem Lawful.settled_select (hr : r.Lawful) {name : String} (hh : r.get? name = some host)
    (o : FindOptions) : Settled (r.select name o) (∃ ms, r.Valid host o ms) := by
  have hmem := mem_of_get? hh
  have hentity : r.entity name = .ok host := by rw [entity, hh]
  let ms := r.meanings host o.includes
  let Δ : Aliases := (host.table, host) :: ms.flatMap r.tablesOf
  have hselect : Settled (r.select name o)
      ((Filter.wellFormed (o.filter.getD []) ∧
        (∀ i ∈ o.includes, (∃ m, r.Means host i m) ∧ Filter.wellFormed (i.filter.getD [])) ∧
        (host.table :: ms.flatMap (·.1.aliases)).Nodup) ∧
      (host.Offers o.columns ∧ List.Forall₂ (fun i m => m.2.Offers i.columns) o.includes ms) ∧
      (∀ c ∈ o.group, Δ.Declares (c.on host)) ∧ ∀ t ∈ o.order, Δ.Declares (t.column.on host)) := by
    rw [select, hentity]
    refine (hr.settled_source hmem o).bind fun source hs hP => ?_
    obtain ⟨-, his, hn⟩ := hP
    obtain ⟨hj, hd⟩ := hr.joined_source hmem hs
    have hms := hr.forall₂_meanings hmem fun i hi => (his i hi).1
    have hshape : Settled (r.shape host o.columns o.includes) _ :=
      (hr.settles_shape hmem hms hn).mono fun _ => Error.IsUndeclared.isOfRequest
    refine hshape.bind fun shape _ _ => ?_
    refine (Settles.mapM fun c _ => settled_resolve hj hd c).bind fun group _ _ => ?_
    exact (Settles.mapM fun t _ => (settled_resolve hj hd t.column).bind_ok).bind_ok
  refine hselect.congr ⟨?_, ?_⟩
  · rintro ⟨⟨hf, his, hn⟩, ⟨hc, ht⟩, hg, ho⟩
    refine ⟨ms, hr.forall₂_meanings hmem fun i hi => (his i hi).1, hf, fun i hi => (his i hi).2, hn,
      hc, ht, ?_⟩
    simpa [or_imp, forall_and] using ⟨hg, ho⟩
  · rintro ⟨ms', hv⟩
    obtain rfl : ms' = ms := hr.eq_meanings hmem hv.includes
    have hrefs : (∀ c ∈ o.group, Δ.Declares (c.on host)) ∧
        ∀ t ∈ o.order, Δ.Declares (t.column.on host) := by
      simpa [or_imp, forall_and] using hv.references
    exact ⟨⟨hv.filter, fun i hi => ⟨exists_of_forall₂ hv.includes i hi, hv.filters i hi⟩,
      hv.aliases⟩, ⟨hv.columns, hv.targets⟩, hrefs⟩

end Registry

/-- **A find is made exactly if it is valid**, and if it is refused the reason is in the request. -/
theorem find_made_iff {r : Registry} (hr : r.Reached) (name : String) (o : FindOptions) :
    ((∃ s, r.select name o = .ok s) ↔
      ∃ host ms, r.get? name = some host ∧ r.Valid host o ms) ∧
    ∀ e, r.select name o = .error e →
      (∀ owner aliasName part, e ≠ .linkPartMissing owner aliasName part) ∧
        ∀ n, e = .unknownEntity n → n = name := by
  cases hh : r.get? name with
  | none =>
      have hselect : r.select name o = .error (.unknownEntity name) := by
        rw [Registry.select, Registry.entity, hh]
        rfl
      rw [hselect]
      refine ⟨⟨?_, ?_⟩, ?_⟩
      · rintro ⟨_, ⟨⟩⟩
      · rintro ⟨_, _, ⟨⟩, -⟩
      · rintro e ⟨⟩
        exact ⟨fun _ _ _ h => (by cases h), fun n h => (Error.unknownEntity.inj h).symm⟩
  | some host =>
      have hs := hr.lawful.settled_select hh o
      refine ⟨hs.ok_iff.trans ⟨?_, ?_⟩, fun e he => ?_⟩
      · rintro ⟨ms, hv⟩
        exact ⟨host, ms, rfl, hv⟩
      · rintro ⟨host', ms, h, hv⟩
        cases h
        exact ⟨ms, hv⟩
      · have hreason := hs.reason e he
        constructor
        · rintro owner aliasName part rfl
          cases hreason
        · rintro n rfl
          cases hreason

/-- The link of the tags has a column `tag_id`, the tags themselves have none. -/
theorem find_made_library :
    (∃ host ms, Registry.library.get? "book" = some host ∧
      Registry.library.Valid host { catalogue with group := [.parse "tags_through.tag_id"] } ms) ∧
    ¬ ∃ host ms, Registry.library.get? "book" = some host ∧
      Registry.library.Valid host { catalogue with group := [.parse "tags.tag_id"] } ms := by
  obtain ⟨made, -⟩ := find_made_iff Registry.reached_library "book"
    { catalogue with group := [.parse "tags_through.tag_id"] }
  obtain ⟨refused, -⟩ := find_made_iff Registry.reached_library "book"
    { catalogue with group := [.parse "tags.tag_id"] }
  refine ⟨made.mp ⟨_, rfl⟩, fun h => ?_⟩
  obtain ⟨s, hs⟩ := refused.mpr h
  cases hs

end RowGraph
