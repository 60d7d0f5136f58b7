import RowGraph.Proofs.Filter.Columns
import RowGraph.Proofs.Find.Scope
import RowGraph.Proofs.Parameters
import RowGraph.Proofs.Sql.Mentions

/-!
# Proofs — the names in a find

What a plan has of tables and columns is what its text mentions (`Select.mentions_text`,
`Count.mentions_text`), no more and in the same order.  On a reached registry all of it is in
scope (`finds_scoped`): aliases are different, every join is on a column brought in before it and
one of its own, all columns but those of filters are declared, and those of a filter stand behind
the alias of the table the filter is on.
-/

namespace RowGraph

open Sql Fragment

/-! ### What a plan mentions -/

namespace Predicate

/-- The columns of a predicate, if there is one. -/
def columnsIn (p : Option Predicate) : List String := p.elim [] columns

end Predicate

def TableColumn.mention (k : Clause) (c : TableColumn) : Mention := .column k c.aliasName c.column

def Join.mentions (j : Join) : List Mention :=
  [.table j.table j.aliasName, j.left.mention .on, j.right.mention .on]

/-- The columns of the join's filter, behind its alias. -/
def Join.filterColumns (j : Join) : List TableColumn :=
  (Predicate.columnsIn j.filter).map (⟨j.aliasName, ·⟩)

namespace Source

/-- The columns of the filters, each behind the alias of the table its filter is on. -/
def filterColumns (s : Source) : List TableColumn :=
  (Predicate.columnsIn s.filter).map (⟨s.aliasName, ·⟩) ++ s.joins.flatMap Join.filterColumns

def mentions (s : Source) : List Mention :=
  .table s.table s.aliasName :: s.joins.flatMap Join.mentions ++
    s.filterColumns.map (TableColumn.mention .filter)

end Source

namespace Select

/-- The columns read. -/
def projected (s : Select) : List TableColumn :=
  s.shape.tables.flatMap fun t => t.columns.map (⟨t.aliasName, ·⟩)

def mentions (s : Select) : List Mention :=
  s.projected.map (TableColumn.mention .select) ++ s.source.mentions ++
    s.group.map (TableColumn.mention .groupBy) ++ s.order.map (·.1.mention .orderBy)

end Select

def Count.mentions (c : Count) : List Mention := c.key.mention .select :: c.source.mentions

/-! ### What a text mentions -/

namespace Predicate

mutual

theorem mentions_fragment (k : Clause) (q : String) : ∀ (p : Predicate) (n : Nat),
    (p.fragment (some q) n).Mentions k (p.columns.map (.column k q)) k
  | .constant b, n => by cases b <;> exact mentions_token k (by decide)
  | .is column negated w, n => by
      have ht : (token (if negated then .isNot else .is)).Mentions k [] k := by
        cases negated <;> exact mentions_token k (by decide)
      have hw : (token w.token).Mentions k [] k := by
        cases w <;> exact mentions_token k (by decide)
      exact ((mentions_column k q column).append_nil ht).append_nil hw
  | .compare column c v, n => by
      have ht : (token c.token).Mentions k [] k := by
        cases c <;> exact mentions_token k (by decide)
      exact ((mentions_column k q column).append_nil ht).append_nil (mentions_param k n v)
  | .among column negated vs, n => by
      have ht : (token (if negated then .notIn else .isIn)).Mentions k [] k := by
        cases negated <;> exact mentions_token k (by decide)
      have hvs := (mentionAll_paramsFrom k n vs).join (mentions_token k (t := .comma) (by decide))
      exact ((mentions_column k q column).append_nil ht).append_nil hvs.parens
  | .between column negated low high, n => by
      have ht : (token (if negated then .notBetween else .between)).Mentions k [] k := by
        cases negated <;> exact mentions_token k (by decide)
      have hl := ((mentions_column k q column).append_nil ht).append_nil (mentions_param k n low)
      have ha := hl.append_nil (mentions_token k (t := .and) (by decide))
      exact ha.append_nil (mentions_param k (n + 1) high)
  | .contains column v, n => by
      have ht := (mentions_param k n v).append_nil (mentions_token k (t := .isIn) (by decide))
      exact ht.nil_append ((mentions_column k q column).call (by decide))
  | .contained column vs, n => by
      have ht := (mentions_column k q column).append_nil (mentions_token k (t := .isIn) (by decide))
      exact ht.append_nil ((mentions_param k n (.array vs)).call (by decide))
  | .junction c ps, n => by
      have ht : (token c.token).Mentions k [] k := by
        cases c <;> exact mentions_token k (by decide)
      exact (mentionAll_groups k q ps n).join ht

theorem mentionAll_groups (k : Clause) (q : String) : ∀ (ps : List Predicate) (n : Nat),
    MentionAll k (groups (some q) ps n) ((columnsOf ps).map (.column k q))
  | [], n => .nil
  | p :: ps, n => by
      rw [columnsOf, List.map_append]
      exact .cons (mentions_fragment k q p n).parens (mentionAll_groups k q ps (n + p.size))

end

end Predicate

/-! ### Sources -/

theorem TableColumn.mentions_fragment (c : TableColumn) (k : Clause) :
    c.fragment.Mentions k [c.mention k] k :=
  mentions_column k c.aliasName c.column

namespace Join

theorem mentions_fragment (j : Join) (k : Clause) : j.fragment.Mentions k j.mentions .on := by
  have hj : (token j.kind.token).Mentions k [] .tables := by
    cases j.kind <;> exact mentions_token k (by decide)
  have hon : (token .on).Mentions .tables [] .on := mentions_token .tables (by decide)
  have heq : (token .eq).Mentions .on [] .on := mentions_token .on (by decide)
  have h := (hj.nil_append (mentions_table j.table j.aliasName)).append_nil hon
  have h := (h.append (j.left.mentions_fragment .on)).append_nil heq
  exact h.append (j.right.mentions_fragment .on)

/-- Joins leave the reader in some clause. -/
theorem mentions_fragments (js : List Join) (k : Clause) :
    ∃ k', Mentions (js.flatMap fragment) k (js.flatMap mentions) k' := by
  induction js generalizing k with
  | nil => exact ⟨k, mentions_nil k⟩
  | cons j js ih =>
      obtain ⟨k', h⟩ := ih .on
      exact ⟨k', (j.mentions_fragment k).append h⟩

theorem mentionAll_filterFragments (js : List Join) (n : Nat) :
    MentionAll .filter ((filterFragments js n).filterMap id)
      ((js.flatMap filterColumns).map (TableColumn.mention .filter)) := by
  induction js generalizing n with
  | nil => exact .nil
  | cons j js ih =>
      rw [List.flatMap_cons, List.map_append, filterColumns, filterFragments]
      cases hf : j.filter with
      | none => exact ih n
      | some p =>
          have hp := p.mentions_fragment .filter j.aliasName n
          rw [List.map_map]
          exact .cons hp (ih (n + p.size))

end Join

namespace Source

theorem mentionAll_filterFragments (s : Source) :
    MentionAll .filter s.filterFragments (s.filterColumns.map (TableColumn.mention .filter)) := by
  unfold filterFragments filterColumns
  cases s.filter with
  | none => exact Join.mentionAll_filterFragments s.joins 0
  | some p =>
      have hp := p.mentions_fragment .filter s.aliasName 0
      rw [List.map_append, List.map_map]
      exact .cons hp (Join.mentionAll_filterFragments s.joins p.size)

theorem mentions_whereClause {fs : List Fragment} {ms : List Mention} (h : MentionAll .filter fs ms)
    (k : Clause) : ∃ k', (whereClause fs).Mentions k ms k' := by
  cases h with
  | nil => exact ⟨k, mentions_nil k⟩
  | cons hf hfs =>
      have hw : (token .filter).Mentions k [] .filter := mentions_token k (by decide)
      have ha : (token .and).Mentions .filter [] .filter := mentions_token .filter (by decide)
      exact ⟨.filter, hw.nil_append ((MentionAll.cons hf hfs).joinGrouped ha)⟩

theorem mentions_fragment (s : Source) (k : Clause) :
    ∃ k', s.fragment.Mentions k s.mentions k' := by
  have hf : (token .fromTable).Mentions k [] .tables := mentions_token k (by decide)
  have h := hf.nil_append (mentions_table s.table s.aliasName)
  obtain ⟨k₁, hj⟩ := Join.mentions_fragments s.joins .tables
  obtain ⟨k₂, hw⟩ := mentions_whereClause s.mentionAll_filterFragments k₁
  exact ⟨k₂, (h.append hj).append hw⟩

end Source

/-! ### Finds and counts -/

namespace Select

theorem mentionAll_projection (s : Select) :
    MentionAll .select (s.shape.tables.flatMap projection)
      (s.projected.map (TableColumn.mention .select)) := by
  have column (t : TableShape) (c : String) :
      Fragment.Mentions (column (some t.aliasName) c ++ token .as ++ ident (t.label c)) .select
        [.column .select t.aliasName c] .select :=
    (mentions_column .select t.aliasName c).append_nil (mentions_label .select (t.label c))
  have table (t : TableShape) := mentionAll_map (column t) t.columns
  have hm : s.projected.map (TableColumn.mention .select) =
      s.shape.tables.flatMap fun t => t.columns.map (.column .select t.aliasName) := by
    simp [projected, List.map_flatMap, TableColumn.mention, Function.comp_def]
  rw [hm]
  exact mentionAll_flatMap table s.shape.tables

theorem mentions_clause {keyword : Token} {k k' : Clause} (hk : (token keyword).Mentions k [] k')
    {fs : List Fragment} {ms : List Mention} (h : MentionAll k' fs ms) :
    ∃ k'', (clause keyword fs).Mentions k ms k'' := by
  cases h with
  | nil => exact ⟨k, mentions_nil k⟩
  | cons hf hfs =>
      have hc : (token .comma).Mentions k' [] k' := mentions_token k' (by decide)
      exact ⟨k', hk.nil_append ((MentionAll.cons hf hfs).join hc)⟩

theorem mentions_bound {keyword : Token} {k : Clause} (hk : (token keyword).Mentions k [] k)
    (n : Option Nat) : (bound keyword n).Mentions k [] k := by
  cases n with
  | none => exact mentions_nil k
  | some n => exact hk.nil_append (mentions_number k n)

/-- **The text of a find mentions what its plan has.** -/
theorem mentions_text (s : Select) : Sql.mentions s.statement.sql = some s.mentions := by
  have hs : (token .select).Mentions .select [] .select := mentions_token .select (by decide)
  have hc : (token .comma).Mentions .select [] .select := mentions_token .select (by decide)
  have hg := mentionAll_map (fun c : TableColumn => c.mentions_fragment .groupBy) s.group
  have term (t : TableColumn × Direction) :
      (orderTerm t).Mentions .orderBy [t.1.mention .orderBy] .orderBy := by
    have ht : (token t.2.token).Mentions .orderBy [] .orderBy := by
      cases t.2 <;> exact mentions_token .orderBy (by decide)
    exact (t.1.mentions_fragment .orderBy).append_nil ht
  have ho := mentionAll_map term s.order
  obtain ⟨k₁, h₁⟩ := s.source.mentions_fragment .select
  obtain ⟨k₂, h₂⟩ := mentions_clause (mentions_token k₁ (t := .groupBy) (by decide)) hg
  obtain ⟨k₃, h₃⟩ := mentions_clause (mentions_token k₂ (t := .orderBy) (by decide)) ho
  have h₄ := mentions_bound (mentions_token k₃ (t := .limit) (by decide)) s.limit
  have h₅ := mentions_bound (mentions_token k₃ (t := .offset) (by decide)) s.offset
  have h := (hs.nil_append (s.mentionAll_projection.join hc)).append h₁
  have h := (((h.append h₂).append h₃).append_nil h₄).append_nil h₅
  exact h.text s.carries_fragment.wellNamed

end Select

theorem Count.mentions_text (c : Count) : Sql.mentions c.statement.sql = some c.mentions := by
  have hs : (token .select).Mentions .select [] .select := mentions_token .select (by decide)
  have hd : (token .distinct).Mentions .select [] .select := mentions_token .select (by decide)
  have hn : "COUNT" ∉ leading := by decide
  have hk := (hd.nil_append (c.key.mentions_fragment .select)).call hn
  obtain ⟨k, h⟩ := c.source.mentions_fragment .select
  have h := ((hs.nil_append hk).append_nil (mentions_label .select "count")).append h
  exact h.text c.carries_fragment.wellNamed

/-! ### Filters -/

namespace Filter

/-- The columns a filter speaks of, if there is one. -/
def columnsOf (f : Option Filter) : List String := f.elim [] columns

theorem columnsIn_of_predicate? {f : Option Filter} {p : Option Predicate} {k : Nat}
    (h : (predicate? f).Yields p k) : Predicate.columnsIn p = columnsOf f := by
  obtain ⟨cs, hcs, hp⟩ := yields_predicate? h
  have hc : columnsOf f = columns (f.getD []) := by cases f <;> rfl
  obtain ⟨hf, rfl⟩ | ⟨-, rfl⟩ := hp
  · rw [hc, hf]
    rfl
  · rw [hc, ← columns_conjunction_of_clauses hcs]
    rfl

end Filter

/-- The columns the filters of a find speak of, each behind the alias of the table its filter is
on: the root's, then for each include those of its own filter. -/
def FindOptions.filterColumns (r : Registry) (host : Entity) (o : FindOptions) :
    List TableColumn :=
  (Filter.columnsOf o.filter).map (⟨host.table, ·⟩) ++
    o.includes.flatMap fun i => (Filter.columnsOf i.filter).map (⟨r.includeAlias i, ·⟩)

theorem Inclusion.Resolved.filterColumns {r : Registry} {host : Entity} {x : Inclusion}
    (h : x.Resolved r host) (home : Namespace) :
    (x.joins home host).flatMap Join.filterColumns =
      (Filter.columnsOf x.request.filter).map (⟨r.includeAlias x.request, ·⟩) := by
  obtain ⟨k, hk⟩ := h.filtered
  rw [← Filter.columnsIn_of_predicate? hk, ← Registry.aliasName_of_findAssociation h.found]
  obtain ⟨ρ, hρ⟩ := h.exists_route
  rw [joins, hρ]
  cases ρ with
  | direct _ _ => simp [targetJoin, Join.filterColumns, aliasName]
  | linked _ _ =>
      simp [targetJoin, linkJoin, Join.filterColumns, Predicate.columnsIn, aliasName]

/-! ### Scoped plans -/

/-- The tables of a source are those of `Γ`, in order and under different aliases.  What stands in
its `FROM` and in its joins is declared, what stands in its filters is qualified by the table the
filter is on. -/
structure Source.Scoped (r : Registry) (host : Entity) (o : FindOptions) (s : Source)
    (Γ : Aliases) : Prop where
  root : s.table = r.home.qualify host.table ∧ s.aliasName = host.table
  joins : Aliases.Joined r [(host.table, host)] s.joins Γ
  aliases : Γ.map (·.1) = s.aliasName :: s.joins.map (·.aliasName)
  distinct : (Γ.map (·.1)).Nodup
  /-- The includes' targets are among the tables. -/
  includes : ∀ i ∈ o.includes, ∃ target, r.get? i.target = some target ∧
    (r.includeAlias i, target) ∈ Γ
  filters : s.filterColumns = o.filterColumns r host

/-- The source is scoped, and what is read, grouped by or ordered by is declared. -/
structure Select.Scoped (r : Registry) (host : Entity) (o : FindOptions) (s : Select)
    (Γ : Aliases) : Prop where
  source : s.source.Scoped r host o Γ
  projected : ∀ c ∈ s.projected, Γ.Declares c
  group : ∀ c ∈ s.group, Γ.Declares c
  order : ∀ t ∈ s.order, Γ.Declares t.1
  /-- Nothing else is mentioned. -/
  text : Sql.mentions s.statement.sql = some s.mentions

/-- The source is scoped, and the key that is counted is declared. -/
structure Count.Scoped (r : Registry) (host : Entity) (o : FindOptions) (c : Count)
    (Γ : Aliases) : Prop where
  source : c.source.Scoped r host o Γ
  key : Γ.Declares c.key
  /-- Nothing else is mentioned. -/
  text : Sql.mentions c.statement.sql = some c.mentions

namespace Registry

/-- **A source that is made is scoped.** -/
theorem Lawful.source {r : Registry} (hr : r.Lawful) {host : Entity} (hh : host ∈ r.entities)
    {o : FindOptions} {s : Source} (h : r.source host o = .ok s) :
    ∃ Γ, s.Scoped r host o Γ := by
  obtain ⟨⟨k, hk⟩, ha, hd, xs, hm, hxs, hj⟩ := source_eq_ok h
  have hjoined := hr.joined_inclusions hh hxs (Γ := [(host.table, host)]) List.mem_cons_self
  rw [← hj] at hjoined
  have haliases := hjoined.aliases
  refine ⟨_, ⟨table_of_source h, ha⟩, hjoined, ?_, ?_, ?_, ?_⟩
  · rw [haliases, ha]
    rfl
  · rw [haliases]
    exact requireDistinct_eq_ok hd (List.nodup_singleton _)
  · intro i hi
    rw [← hm] at hi
    obtain ⟨x, hx, rfl⟩ := List.mem_map.mp hi
    obtain ⟨ht, -, -⟩ := findAssociation_eq_ok (hxs x hx).found
    have hx' := List.mem_flatMap.mpr ⟨x, hx, mem_tables (hxs x hx)⟩
    exact ⟨x.target, ht, List.mem_append_right _ hx'⟩
  · rw [Source.filterColumns, FindOptions.filterColumns, Filter.columnsIn_of_predicate? hk, ha,
      hj, ← hm, List.flatMap_assoc, List.flatMap_map]
    congr 1
    exact List.flatMap_congr fun x hx => (hxs x hx).filterColumns r.home

/-- What the references of a find are resolved to. -/
theorem references_of_select {r : Registry} {name : String} {o : FindOptions} {s : Select}
    (h : r.select name o = .ok s) {host : Entity} (hh : r.get? name = some host) :
    (∀ c ∈ s.group, ∃ d, r.resolve host s.source.joins d = .ok c) ∧
      ∀ t ∈ s.order, ∃ d, r.resolve host s.source.joins d = .ok t.1 := by
  obtain ⟨hg, ho, -, -⟩ := clauses_of_select h hh
  constructor
  · intro c hc
    obtain ⟨d, -, hd⟩ := exists_of_mapM_eq_ok hg c hc
    exact ⟨d, hd⟩
  · intro t ht
    obtain ⟨u, -, hu⟩ := exists_of_mapM_eq_ok ho t ht
    obtain ⟨c, hc, hu⟩ := bind_eq_ok hu
    cases hu
    exact ⟨u.column, hc⟩

/-- The columns a find reads are declared. -/
theorem declares_projected {r : Registry} {name : String} {o : FindOptions} {s : Select}
    {host : Entity} {xs : List Inclusion} (hs : s.Planned r name o host xs) {Γ : Aliases}
    (hΓ : s.source.Scoped r host o Γ) : ∀ c ∈ s.projected, Γ.Declares c := by
  intro c hc
  obtain ⟨t, ht, hc⟩ := List.mem_flatMap.mp hc
  obtain ⟨column, hcol, rfl⟩ := List.mem_map.mp hc
  rw [hs.tables, List.mem_cons] at ht
  rcases ht with rfl | ht
  · refine ⟨host, ?_, Entity.mem_columnNames_of_projection hs.rootColumns column hcol⟩
    rw [hs.rootAlias]
    exact hΓ.joins.subset List.mem_cons_self
  · obtain ⟨x, hx, rfl⟩ := List.mem_map.mp ht
    have hfound := (hs.resolved x hx).found
    obtain ⟨htarget, -, -⟩ := findAssociation_eq_ok hfound
    have hi : x.request ∈ o.includes := hs.requests ▸ List.mem_map_of_mem hx
    obtain ⟨target, ht', hm⟩ := hΓ.includes x.request hi
    cases htarget.symm.trans ht'
    refine ⟨x.target, ?_, Entity.mem_columnNames_of_projection (hs.columns x hx) column hcol⟩
    rw [← aliasName_of_findAssociation hfound] at hm
    exact hm

end Registry

/-- **All names of finds and counts are in scope.** -/
theorem finds_scoped {r : Registry} (hr : r.Reached) (name : String) (o : FindOptions) :
    (∀ s, r.select name o = .ok s →
      ∃ host Γ, r.get? name = some host ∧ s.Scoped r host o Γ) ∧
    (∀ c, r.count name o = .ok c →
      ∃ host Γ, r.get? name = some host ∧ c.Scoped r host o Γ) := by
  constructor
  · intro s h
    obtain ⟨host, xs, hs⟩ := Registry.planned_of_select h
    obtain ⟨host', hh, hsource, -⟩ := Registry.select_eq_ok h
    cases hs.found.symm.trans hh
    obtain ⟨Γ, hΓ⟩ := hr.lawful.source (Registry.mem_of_get? hh) hsource
    obtain ⟨hg, ho⟩ := Registry.references_of_select h hh
    refine ⟨host, Γ, hh, hΓ, Registry.declares_projected hs hΓ, ?_, ?_, s.mentions_text⟩
    · intro c hc
      obtain ⟨d, hd⟩ := hg c hc
      exact Registry.declares_of_resolve hΓ.joins List.mem_cons_self hd
    · intro t ht
      obtain ⟨d, hd⟩ := ho t ht
      exact Registry.declares_of_resolve hΓ.joins List.mem_cons_self hd
  · intro c h
    obtain ⟨host, hh, hsource, hkey⟩ := Registry.count_eq_ok h
    obtain ⟨Γ, hΓ⟩ := hr.lawful.source (Registry.mem_of_get? hh) hsource
    have hk : Γ.Declares c.key := by
      rw [hkey]
      exact ⟨host, hΓ.joins.subset List.mem_cons_self, host.key_mem⟩
    exact ⟨host, Γ, hh, hΓ, hk, c.mentions_text⟩

/-- The shelf, grouped by a column of the root and ordered by one of an include. -/
def orderedShelf : FindOptions :=
  { shelf with
    group := [.parse "title"]
    order := [⟨.parse "chapters.heading", .desc⟩] }

theorem finds_scoped_library :
    (∃ s host Γ, Registry.library.select "book" orderedShelf = .ok s ∧
      Registry.library.get? "book" = some host ∧ s.Scoped Registry.library host orderedShelf Γ) ∧
    (∃ c host Γ, Registry.library.count "book" shelf = .ok c ∧
      Registry.library.get? "book" = some host ∧ c.Scoped Registry.library host shelf Γ) := by
  obtain ⟨select, -⟩ := finds_scoped Registry.reached_library "book" orderedShelf
  obtain ⟨-, count⟩ := finds_scoped Registry.reached_library "book" shelf
  obtain ⟨host, Γ, hs⟩ := select _ rfl
  obtain ⟨host', Γ', hc⟩ := count _ rfl
  exact ⟨⟨_, host, Γ, rfl, hs⟩, ⟨_, host', Γ', rfl, hc⟩⟩

end RowGraph
