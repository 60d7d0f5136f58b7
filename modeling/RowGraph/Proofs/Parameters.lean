import RowGraph.Proofs.Filter.Bound
import RowGraph.Proofs.Find.Inclusion
import RowGraph.Proofs.Row
import RowGraph.Write

/-!
# Proofs — the parameters of every statement

Each kind of statement carries the values its caller gave, numbered from the first place on: a
find those of the root's filter and then those of its includes' filters, an insert those of its
tuples, an update its assignments and then its filter.  So **every statement binds exactly the
values given** (`statements_bind`), each once and in the order of its placeholders, although the
text is put together in another order than the filters are checked.
-/

namespace RowGraph

open Sql Fragment

/-! ### Filters that may be left out -/

/-- The values a filter binds, if there is one. -/
def Filter.boundOf (f : Option Filter) : List Value := f.elim [] Filter.bound

/-- The values the filters of a find bind, the root's first. -/
def FindOptions.bound (o : FindOptions) : List Value :=
  Filter.boundOf o.filter ++ o.includes.flatMap fun i => Filter.boundOf i.filter

/-- The values of a predicate, if there is one. -/
def Predicate.valuesIn (p : Option Predicate) : List Value := p.elim [] Predicate.values

namespace Filter

open Draw

theorem values_of_predicate {f : Filter} {p : Predicate} {k : Nat} (h : f.predicate.Yields p k) :
    p.values = bound f := by
  obtain ⟨cs, hcs, rfl, -⟩ := yields_predicate h
  rw [values_conjunction, values_of_clauses hcs]

theorem valuesIn_of_predicate? {f : Option Filter} {p : Option Predicate} {k : Nat}
    (h : (predicate? f).Yields p k) : Predicate.valuesIn p = boundOf f := by
  obtain ⟨cs, hcs, hp⟩ := yields_predicate? h
  have hb : boundOf f = bound (f.getD []) := by cases f <;> rfl
  obtain ⟨hf, rfl⟩ | ⟨-, rfl⟩ := hp
  · rw [hb, hf]
    rfl
  · rw [hb, ← values_of_clauses hcs, ← values_conjunction]
    rfl

theorem values_of_predicateOrAll {f : Option Filter} {p : Predicate}
    (h : predicateOrAll f = .ok p) : p.values = boundOf f := by
  cases f with
  | none => cases h; rfl
  | some f =>
      have hy : f.predicate.Yields p f.predicate.drawn := by
        rw [Yields, ← show f.predicate.result = .ok p from h]
      exact values_of_predicate hy

end Filter

/-! ### Finds -/

def Join.values (j : Join) : List Value := Predicate.valuesIn j.filter

theorem Inclusion.Resolved.values {r : Registry} {host : Entity} {x : Inclusion}
    (h : x.Resolved r host) (home : Namespace) :
    (x.joins home host).flatMap Join.values = Filter.boundOf x.request.filter := by
  obtain ⟨k, hk⟩ := h.filtered
  have hv := Filter.valuesIn_of_predicate? hk
  obtain ⟨ρ, hρ⟩ := h.exists_route
  rw [joins, hρ]
  cases ρ with
  | direct _ _ => simpa [targetJoin, Join.values] using hv
  | linked _ _ => simpa [targetJoin, linkJoin, Join.values, Predicate.valuesIn] using hv

/-- The values bound by the joins are those of the includes' filters. -/
theorem values_joins {r : Registry} {host : Entity} {xs : List Inclusion}
    (hxs : ∀ x ∈ xs, x.Resolved r host) (home : Namespace) :
    (xs.flatMap (Inclusion.joins home host)).flatMap Join.values =
      (xs.map Inclusion.request).flatMap fun i => Filter.boundOf i.filter := by
  rw [List.flatMap_assoc, List.flatMap_map]
  exact List.flatMap_congr fun x hx => (hxs x hx).values home

theorem TableColumn.carries_fragment (c : TableColumn) (n : Nat) : c.fragment.Carries n [] :=
  carries_column (some c.aliasName) c.column n

theorem Join.carries_fragment (j : Join) (n : Nat) : j.fragment.Carries n [] := by
  have h := (carries_token j.kind.token n).nil_append (carries_ident j.table n)
  have h := (h.nil_append (carries_token .as n)).nil_append (carries_ident j.aliasName n)
  have h := (h.nil_append (carries_token .on n)).nil_append (j.left.carries_fragment n)
  exact (h.nil_append (carries_token .eq n)).nil_append (j.right.carries_fragment n)

theorem Join.carries_fragments (js : List Join) (n : Nat) :
    Fragment.Carries (js.flatMap Join.fragment) n [] := by
  induction js with
  | nil => exact carries_nil n
  | cons j js ih => exact (j.carries_fragment n).nil_append ih

/-- The filters of joins carry their values, numbered on from filter to filter. -/
theorem carryAll_filterFragments (js : List Join) (n : Nat) :
    CarryAll ((Join.filterFragments js n).filterMap id) n (js.flatMap Join.values) := by
  induction js generalizing n with
  | nil => exact carryAll_nil n
  | cons j js ih =>
      rw [List.flatMap_cons, Join.values, Join.filterFragments]
      cases hf : j.filter with
      | none => exact ih n
      | some p => exact (ih (n + p.size)).cons (p.carries_fragment (some j.aliasName) n)

namespace Source

def values (s : Source) : List Value := Predicate.valuesIn s.filter ++ s.joins.flatMap Join.values

theorem carryAll_filterFragments (s : Source) : CarryAll s.filterFragments 0 s.values := by
  unfold filterFragments values
  cases s.filter with
  | none => exact RowGraph.carryAll_filterFragments s.joins 0
  | some p =>
      have h := RowGraph.carryAll_filterFragments s.joins p.size
      refine CarryAll.cons (p.carries_fragment (some s.aliasName) 0) ?_
      rw [Nat.zero_add]
      exact h

theorem carries_whereClause {fs : List Fragment} {n : Nat} {vs : List Value}
    (h : CarryAll fs n vs) : (whereClause fs).Carries n vs := by
  cases fs with
  | nil => exact ⟨(carries_nil n).wellNamed, h.params⟩
  | cons f fs => exact (carries_token .filter n).nil_append (h.joinGrouped .and)

theorem carries_fragment (s : Source) : s.fragment.Carries 0 s.values := by
  have h := (carries_token .fromTable 0).nil_append (carries_ident s.table 0)
  have h := (h.nil_append (carries_token .as 0)).nil_append (carries_ident s.aliasName 0)
  have h := h.nil_append (Join.carries_fragments s.joins 0)
  exact h.nil_append (carries_whereClause s.carryAll_filterFragments)

end Source

/-- The values of a source that is made are those the options bind. -/
theorem Registry.values_source {r : Registry} {host : Entity} {o : FindOptions} {s : Source}
    (h : r.source host o = .ok s) : s.values = o.bound := by
  obtain ⟨⟨k, hk⟩, -, -, xs, hm, hxs, hj⟩ := source_eq_ok h
  rw [Source.values, Filter.valuesIn_of_predicate? hk, hj, values_joins hxs, hm]
  rfl

namespace Select

theorem carryAll_projection (ts : List TableShape) (n : Nat) :
    CarryAll (ts.flatMap projection) n [] := by
  refine carryAll_of_forall fun f hf => ?_
  obtain ⟨t, -, hf⟩ := List.mem_flatMap.mp hf
  obtain ⟨c, -, rfl⟩ := List.mem_map.mp hf
  exact ((carries_column (some t.aliasName) c n).nil_append (carries_token .as n)).nil_append
    (carries_ident (t.label c) n)

theorem carries_clause (keyword : Token) {fs : List Fragment} {n : Nat}
    (h : ∀ f ∈ fs, f.Carries n []) : (clause keyword fs).Carries n [] := by
  cases fs with
  | nil => exact carries_nil n
  | cons f fs => exact (carries_token keyword n).nil_append ((carryAll_of_forall h).join .comma)

theorem carries_bound (keyword : Token) (k : Option Nat) (n : Nat) :
    (bound keyword k).Carries n [] := by
  cases k with
  | none => exact carries_nil n
  | some k => exact (carries_token keyword n).nil_append (carries_number k n)

theorem carries_fragment (s : Select) : s.fragment.Carries 0 s.source.values := by
  let n := 0 + s.source.values.length
  have hg : (clause .groupBy (s.group.map TableColumn.fragment)).Carries n [] := by
    refine carries_clause .groupBy fun f hf => ?_
    obtain ⟨c, -, rfl⟩ := List.mem_map.mp hf
    exact c.carries_fragment n
  have ho : (clause .orderBy (s.order.map orderTerm)).Carries n [] := by
    refine carries_clause .orderBy fun f hf => ?_
    obtain ⟨t, -, rfl⟩ := List.mem_map.mp hf
    exact (t.1.carries_fragment n).nil_append (carries_token t.2.token n)
  have h := (carries_token .select 0).nil_append
    ((carryAll_projection s.shape.tables 0).join .comma)
  have h := ((h.nil_append s.source.carries_fragment).append_nil hg).append_nil ho
  exact (h.append_nil (carries_bound .limit s.limit n)).append_nil
    (carries_bound .offset s.offset n)

end Select

theorem Count.carries_fragment (c : Count) : c.fragment.Carries 0 c.source.values := by
  have hc : IsWord "COUNT".toList := by decide
  have hk := ((carries_token .distinct 0).nil_append (c.key.carries_fragment 0)).call hc
  have h := (carries_token .select 0).nil_append hk
  have h := (h.nil_append (carries_token .as 0)).nil_append (carries_ident "count" 0)
  exact h.nil_append c.source.carries_fragment

/-! ### Writes -/

/-- The tuples of an insert carry their values row by row. -/
theorem Insert.carryAll_tuples (rows : List (List Value)) (n : Nat) :
    CarryAll (tuples rows n) n rows.flatten := by
  induction rows generalizing n with
  | nil => exact carryAll_nil n
  | cons vs rows ih =>
      exact (ih (n + vs.length)).cons ((carryAll_paramsFrom n vs).join .comma).parens

theorem Insert.carries_fragment (i : Insert) : i.fragment.Carries 0 i.rows.flatten := by
  have hc : CarryAll (i.columns.map Fragment.ident) 0 [] := by
    refine carryAll_of_forall fun f hf => ?_
    obtain ⟨c, -, rfl⟩ := List.mem_map.mp hf
    exact carries_ident c 0
  have h := (carries_token .insertInto 0).nil_append (carries_ident i.table 0)
  have h := (h.nil_append (hc.join .comma).parens).nil_append (carries_token .values 0)
  exact h.nil_append ((carryAll_tuples i.rows 0).join .comma)

theorem Update.carryAll_assign (cells : List (String × Value)) (n : Nat) :
    CarryAll (assign cells n) n (cells.map (·.2)) := by
  induction cells generalizing n with
  | nil => exact carryAll_nil n
  | cons c cells ih =>
      exact (ih (n + 1)).cons
        (((carries_ident c.1 n).nil_append (carries_token .eq n)).nil_append (carries_param n c.2))

theorem Update.carries_fragment (u : Update) :
    u.fragment.Carries 0 (u.assignments.map (·.2) ++ u.filter.values) := by
  -- the filter is numbered on from the assignments
  have hf := u.filter.carries_fragment none (0 + (u.assignments.map (·.2)).length)
  rw [Nat.zero_add, List.length_map] at hf
  have h := (carries_token .update 0).nil_append (carries_ident u.table 0)
  have h := h.nil_append (carries_token .set 0)
  have h := h.nil_append ((carryAll_assign u.assignments 0).join .comma)
  have h := h.append_nil (carries_token .filter _)
  refine h.append ?_
  rw [Nat.zero_add, List.length_map]
  exact hf

theorem Delete.carries_fragment (d : Delete) : d.fragment.Carries 0 d.filter.values := by
  have h := (carries_token .deleteFrom 0).nil_append (carries_ident d.table 0)
  exact (h.nil_append (carries_token .filter 0)).nil_append (d.filter.carries_fragment none 0)

/-! ### Plans of writes -/

theorem Entity.requireCells_eq_ok {e : Entity} {row : Row} (h : e.requireCells row = .ok ()) :
    ∀ c ∈ row.names, c ∈ e.columnNames := by
  unfold requireCells at h
  split at h
  case h_1 => cases h
  case h_2 hn =>
      intro c hc
      have := List.find?_eq_none.mp hn c hc
      exact hasColumn_iff.mp (by simpa using this)

namespace Registry

theorem forM_requireCells_eq_ok {e : Entity} {rows : List Row}
    (h : rows.forM e.requireCells = .ok ()) :
    ∀ row ∈ rows, ∀ c ∈ row.names, c ∈ e.columnNames := by
  induction rows with
  | nil => simp
  | cons row rows ih =>
      obtain ⟨_, hr, h⟩ := bind_eq_ok h
      intro row' hm
      rcases List.mem_cons.mp hm with rfl | hm
      · exact Entity.requireCells_eq_ok hr
      · exact ih h row' hm

/-- An insert that is planned has a tuple for each row, with the cells of the columns that some
row supplies. -/
theorem insert_eq_ok {r : Registry} {name : String} {rows : List Row} {i : Insert}
    (h : r.insert name rows = .ok i) :
    ∃ e, r.get? name = some e ∧ (∀ row ∈ rows, ∀ c ∈ row.names, c ∈ e.columnNames) ∧
      i.table = r.home.qualify e.table ∧
      i.columns = e.columnNames.filter (fun c => rows.any (·.contains c)) ∧
      i.rows = rows.map fun row => i.columns.map row.get := by
  obtain ⟨e, he, h⟩ := bind_eq_ok h
  obtain ⟨_, hr, h⟩ := bind_eq_ok h
  dsimp only at h
  split at h
  · cases h
  · cases h
    exact ⟨e, entity_eq_ok he, forM_requireCells_eq_ok hr, rfl, rfl, rfl⟩

theorem update_eq_ok {r : Registry} {name : String} {row : Row} {f : Option Filter} {u : Update}
    (h : r.update name row f = .ok u) :
    ∃ e, r.get? name = some e ∧ u.table = r.home.qualify e.table ∧
      u.assignments = row.cells ∧ Filter.predicateOrAll f = .ok u.filter := by
  obtain ⟨e, he, h⟩ := bind_eq_ok h
  dsimp only at h
  split at h
  · cases h
  · obtain ⟨_, -, h⟩ := bind_eq_ok h
    obtain ⟨p, hp, h⟩ := bind_eq_ok h
    cases h
    exact ⟨e, entity_eq_ok he, rfl, rfl, hp⟩

theorem delete_eq_ok {r : Registry} {name : String} {f : Option Filter} {d : Delete}
    (h : r.delete name f = .ok d) :
    ∃ e, r.get? name = some e ∧ d.table = r.home.qualify e.table ∧
      Filter.predicateOrAll f = .ok d.filter := by
  obtain ⟨e, he, h⟩ := bind_eq_ok h
  obtain ⟨p, hp, h⟩ := bind_eq_ok h
  cases h
  exact ⟨e, entity_eq_ok he, rfl, hp⟩

end Registry

/-! ### Every statement -/

theorem bindsFrom_insert {r : Registry} {name : String} {rows : List Row} {i : Insert}
    (h : r.insert name rows = .ok i) :
    i.statement.BindsFrom 0 (rows.flatMap fun row => i.columns.map row.get) ∧
      (∀ row ∈ rows, ∀ c ∈ row.names, c ∈ i.columns) ∧ i.columns.Nodup := by
  obtain ⟨e, he, hm, -, hc, hr⟩ := Registry.insert_eq_ok h
  have hb := i.carries_fragment.bindsFrom
  rw [hr, ← List.flatMap_def] at hb
  refine ⟨hb, ?_, ?_⟩
  · intro row hrow c hcell
    rw [hc, List.mem_filter, List.any_eq_true]
    exact ⟨hm row hrow c hcell, row, hrow, Row.contains_iff.mpr hcell⟩
  · rw [hc]
    exact e.nodup.filter _

theorem bindsFrom_update {r : Registry} {name : String} {row : Row} {f : Option Filter} {u : Update}
    (h : r.update name row f = .ok u) :
    u.statement.BindsFrom 0 (row.cells.map (·.2) ++ Filter.boundOf f) := by
  obtain ⟨e, -, -, ha, hf⟩ := Registry.update_eq_ok h
  rw [← ha, ← Filter.values_of_predicateOrAll hf]
  exact u.carries_fragment.bindsFrom

theorem bindsFrom_delete {r : Registry} {name : String} {f : Option Filter} {d : Delete}
    (h : r.delete name f = .ok d) : d.statement.BindsFrom 0 (Filter.boundOf f) := by
  obtain ⟨e, -, -, hf⟩ := Registry.delete_eq_ok h
  rw [← Filter.values_of_predicateOrAll hf]
  exact d.carries_fragment.bindsFrom

theorem bindsFrom_select {r : Registry} {name : String} {o : FindOptions} {s : Select}
    (h : r.select name o = .ok s) : s.statement.BindsFrom 0 o.bound := by
  obtain ⟨host, -, hs, -⟩ := Registry.select_eq_ok h
  rw [← Registry.values_source hs]
  exact s.carries_fragment.bindsFrom

theorem bindsFrom_count {r : Registry} {name : String} {o : FindOptions} {c : Count}
    (h : r.count name o = .ok c) : c.statement.BindsFrom 0 o.bound := by
  obtain ⟨host, -, hs, -⟩ := Registry.count_eq_ok h
  rw [← Registry.values_source hs]
  exact c.carries_fragment.bindsFrom

/-- **Every statement binds exactly the values given**, each once and in the order of its
placeholders.  A filter binds its values from the place it is compiled at up to the next one; a
find binds those of the root's filter and then those of its includes' filters in order; an insert
binds its tuples row by row, in which every cell of a row has one place; an update binds its
assignments and then the values of its filter. -/
theorem statements_bind :
    (∀ (f : Filter) (q : Option String) (n m : Nat) (g : Fragment), f.compile q n = (.ok g, m) →
      g.statement.BindsFrom n (Filter.bound f) ∧ m = n + (Filter.bound f).length) ∧
    (∀ (r : Registry) (name : String) (o : FindOptions) (s : Select), r.select name o = .ok s →
      s.statement.BindsFrom 0 o.bound) ∧
    (∀ (r : Registry) (name : String) (o : FindOptions) (c : Count), r.count name o = .ok c →
      c.statement.BindsFrom 0 o.bound) ∧
    (∀ (r : Registry) (name : String) (rows : List Row) (i : Insert), r.insert name rows = .ok i →
      i.statement.BindsFrom 0 (rows.flatMap fun row => i.columns.map row.get) ∧
        (∀ row ∈ rows, ∀ c ∈ row.names, c ∈ i.columns) ∧ i.columns.Nodup) ∧
    (∀ (r : Registry) (name : String) (row : Row) (f : Option Filter) (u : Update),
      r.update name row f = .ok u →
        u.statement.BindsFrom 0 (row.cells.map (·.2) ++ Filter.boundOf f)) ∧
    (∀ (r : Registry) (name : String) (f : Option Filter) (d : Delete), r.delete name f = .ok d →
      d.statement.BindsFrom 0 (Filter.boundOf f)) := by
  refine ⟨fun f q n m g h => ?_, fun _ _ _ _ => bindsFrom_select, fun _ _ _ _ => bindsFrom_count,
    fun _ _ _ _ => bindsFrom_insert, fun _ _ _ _ _ => bindsFrom_update,
    fun _ _ _ _ => bindsFrom_delete⟩
  obtain ⟨hg, hm⟩ := Filter.carries_compile h
  exact ⟨hg.bindsFrom, hm⟩

/-- Books with their chapters of some headings and their tags but one. -/
def shelf : FindOptions :=
  { FindOptions.all with
    filter := some Filter.titled
    includes :=
      [⟨"chapter", some "chapters", some [("heading", .list [.scalar (.string "I"),
          .scalar (.string "II")])], false, none⟩,
        ⟨"tag", some "tags", some [("label", .object [("ne", .scalar (.string "old"))])], true,
          none⟩] }

theorem statements_bind_library :
    (∃ g m, Filter.compile Filter.titled none 3 = (.ok g, m) ∧
      g.statement.BindsFrom 3 [.string "A", .int64 1, .int64 9] ∧ m = 6) ∧
    (∃ s, Registry.library.select "book" shelf = .ok s ∧
      s.statement.BindsFrom 0 [.string "A", .int64 1, .int64 9, .string "I", .string "II",
        .string "old"]) ∧
    (∃ c, Registry.library.count "book" shelf = .ok c ∧
      c.statement.BindsFrom 0 [.string "A", .int64 1, .int64 9, .string "I", .string "II",
        .string "old"]) ∧
    (∃ i, Registry.library.insert "tag"
        [.ofList [("label", .string "new")], .ofList [("id", .int64 7)]] = .ok i ∧
      i.statement.BindsFrom 0 [.null, .string "new", .int64 7, .null] ∧ i.columns.Nodup) ∧
    (∃ u, Registry.library.update "book" (.ofList [("title", .string "B")]) (some Filter.titled) =
        .ok u ∧
      u.statement.BindsFrom 0 [.string "B", .string "A", .int64 1, .int64 9]) ∧
    (∃ d, Registry.library.delete "book" (some Filter.titled) = .ok d ∧
      d.statement.BindsFrom 0 [.string "A", .int64 1, .int64 9]) := by
  obtain ⟨compile, select, count, insert, update, delete⟩ := statements_bind
  refine ⟨⟨_, _, rfl, compile Filter.titled none 3 _ _ rfl⟩, ?_, ?_, ?_, ?_, ?_⟩
  · exact ⟨_, rfl, select Registry.library "book" shelf _ rfl⟩
  · exact ⟨_, rfl, count Registry.library "book" shelf _ rfl⟩
  · obtain ⟨hb, -, hn⟩ := insert Registry.library "tag"
      [.ofList [("label", .string "new")], .ofList [("id", .int64 7)]] _ rfl
    exact ⟨_, rfl, hb, hn⟩
  · exact ⟨_, rfl, update Registry.library "book" (.ofList [("title", .string "B")])
      (some Filter.titled) _ rfl⟩
  · exact ⟨_, rfl, delete Registry.library "book" (some Filter.titled) _ rfl⟩

end RowGraph
