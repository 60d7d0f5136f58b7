import RowGraph.Proofs.Find.Where

/-!
# Proofs — Find — includes that are not required

The segments of the includes are chosen independently of each other, and each filter asks about one
segment only.  So a row of the host is left in by a find exactly if the root's filter means true on
it and each include leads it to a row, or to the nulls of an outer join without a match, on which
the include's own filter means true (`Select.Planned.survives_iff`).

**Adding an include that is not required leaves out the rows that its filter leaves out, and no
others** (`rootKeys_insert`); without a filter it leaves out none.
-/

namespace RowGraph

open Sql

/-! ### Rows that are left -/

/-- Is a row of the root in what a find is left with? -/
def Select.Survives (s : Select) (I : Interpretation) (T : Tables) (row : Row) : Prop :=
  ∃ c ∈ T.run s.source.joins [(s.source.aliasName, some row)], s.keeps I c

namespace Inclusion

/-- The joins of an include lead a row of the host to a row, or to the nulls of an outer join, on
which the filter of the include means true. -/
def Passes (I : Interpretation) (T : Tables) (home : Namespace) (host : Entity) (x : Inclusion)
    (row : Row) : Prop :=
  ∃ c ∈ T.run (x.joins home host) [(host.table, some row)],
    Filter.Holds I (c.cell x.aliasName) x.request.filter

variable {I : Interpretation} {T : Tables} {home : Namespace} {host : Entity} {x : Inclusion}
  {row : Row} {r : Registry}

theorem row?_cons_of_ne {name aliasName : String} (h : name ≠ aliasName) (m : Option Row)
    (d : Combination) : Combination.row? ((name, m) :: d) aliasName = d.row? aliasName := by
  simp [Combination.row?, h]

theorem passes_iff (hx : x.Resolved r host)
    (hf : host.table ∉ (x.joins home host).map (·.aliasName)) :
    x.Passes I T home host row ↔ ∃ d ∈ x.segments T host row,
      Filter.Holds I (cellOf (d.row? x.aliasName)) x.request.filter := by
  have hc : Combination.row? [(host.table, some row)] host.table = some row := by
    simp [Combination.row?]
  have hfresh : ∀ a ∈ (x.joins home host).map (·.aliasName),
      a ∉ ([(host.table, some row)] : Combination).map (·.1) := by
    intro a ha hm
    rw [List.mem_singleton.mp hm] at ha
    exact hf ha
  have hne : host.table ≠ x.aliasName := fun h => hf (h ▸ Registry.mem_aliases home hx)
  have hcell (d : Combination) : Combination.cell ([(host.table, some row)] ++ d) x.aliasName =
      cellOf (d.row? x.aliasName) :=
    congrArg cellOf (row?_cons_of_ne hne (some row) d)
  rw [Passes, run_joins hc hfresh]
  constructor
  · rintro ⟨c, hm, h⟩
    obtain ⟨d, hd, rfl⟩ := List.mem_map.mp hm
    rw [hcell] at h
    exact ⟨d, hd, h⟩
  · rintro ⟨d, hd, h⟩
    refine ⟨_, List.mem_map_of_mem hd, ?_⟩
    rwa [hcell]

/-- An include that is not required and asks for nothing passes every row. -/
theorem passes_of_not_given (hx : x.Resolved r host)
    (hf : host.table ∉ (x.joins home host).map (·.aliasName)) (hreq : x.request.required = false)
    (hg : ¬ Filter.given x.request.filter) : x.Passes I T home host row := by
  rw [passes_iff hx hf]
  have hne : x.segments T host row ≠ [] := by
    rw [ne_eq, segments_eq_nil hx, hreq]
    simp
  obtain ⟨d, hd⟩ := List.exists_mem_of_ne_nil _ hne
  exact ⟨d, hd, Filter.holds_of_not_given hg I _⟩

/-- Two inclusions of one request pass the same rows. -/
theorem Resolved.passes_congr {y : Inclusion} (hx : x.Resolved r host) (hy : y.Resolved r host)
    (h : x.request = y.request) : x.Passes I T home host row ↔ y.Passes I T home host row := by
  obtain ⟨i, a, target, l, p⟩ := x
  obtain ⟨i', a', target', l', p'⟩ := y
  obtain rfl : i = i' := h
  obtain ⟨rfl, rfl⟩ := Prod.mk.inj (Except.ok.inj (hx.found.symm.trans hy.found))
  obtain ⟨k, hk⟩ := hx.filtered
  obtain ⟨k', hk'⟩ := hy.filtered
  cases hk.symm.trans hk'
  -- only a linked include looks at its link
  have hroute : route host ⟨i, a, target, l, p⟩ = route host ⟨i, a, target, l', p⟩ := by
    unfold route
    cases hk : a.kind with
    | belongsTo | hasOne | hasMany => rfl
    | belongsToMany =>
        obtain ⟨m, hm, hl⟩ := hx.linked hk
        obtain ⟨m', hm', hl'⟩ := hy.linked hk
        cases hl.symm.trans hl'
        cases hm
        cases hm'
        rfl
  have hjoins : joins home host ⟨i, a, target, l, p⟩ = joins home host ⟨i, a, target, l', p⟩ := by
    rw [joins, joins, hroute]
    rfl
  rw [Passes, Passes, hjoins]
  rfl

end Inclusion

namespace Select.Planned

variable {r : Registry} {name : String} {o : FindOptions} {s : Select} {host : Entity}
  {xs : List Inclusion} {I : Interpretation} {T : Tables} {row : Row}

theorem fresh_root (hs : s.Planned r name o host xs) {x : Inclusion} (hx : x ∈ xs) :
    host.table ∉ (x.joins r.home host).map (·.aliasName) := by
  have hn := (List.nodup_cons.mp hs.aliases).1
  rw [hs.joins] at hn
  intro h
  obtain ⟨j, hj, ha⟩ := List.mem_map.mp h
  exact hn (List.mem_map.mpr ⟨j, List.mem_flatMap.mpr ⟨x, hx, hj⟩, ha⟩)

/-- What a combination has for its includes is what its segments have. -/
theorem forall_includes (hs : s.Planned r name o host xs) {ds : List Combination}
    (hd : ds ∈ Inclusion.choices T host xs row) (P : (String → Value) → Inclusion → Prop) :
    (∀ x ∈ xs, P (Combination.cell ((host.table, some row) :: ds.flatten) x.aliasName) x) ↔
      List.Forall₂ (fun d x => P (cellOf (d.row? x.aliasName)) x) ds xs := by
  have hseg := forall₂_segments hd
  rw [List.forall₂_iff_zip] at hseg ⊢
  have hrow {d : Combination} {x : Inclusion} (hz : (d, x) ∈ ds.zip xs) :
      Combination.cell ((host.table, some row) :: ds.flatten) x.aliasName =
        cellOf (d.row? x.aliasName) := by
    obtain ⟨hm, hx⟩ := List.of_mem_zip hz
    exact congrArg cellOf (hs.row?_include hd hm (hs.resolved x hx) (hseg.2 hz))
  constructor
  · intro h
    refine ⟨hseg.1, fun {d x} hz => ?_⟩
    rw [← hrow hz]
    exact h x (List.of_mem_zip hz).2
  · rintro ⟨hlen, h⟩ x hx
    rw [← List.map_snd_zip (Nat.le_of_eq hlen.symm)] at hx
    obtain ⟨⟨d, x⟩, hz, rfl⟩ := List.mem_map.mp hx
    rw [hrow hz]
    exact h hz

/-- **A row is left exactly if the root's filter means true on it and every include passes it.** -/
theorem survives_iff (hs : s.Planned r name o host xs) (h : r.source host o = .ok s.source) :
    s.Survives I T row ↔
      Filter.Holds I row.get o.filter ∧ ∀ x ∈ xs, x.Passes I T r.home host row := by
  have hroot (ds : List Combination) :
      Combination.cell ((host.table, some row) :: ds.flatten) host.table = row.get := by
    have hr : Combination.row? ((host.table, some row) :: ds.flatten) host.table = some row := by
      simp [Combination.row?]
    funext column
    rw [Combination.cell, hr]
    rfl
  have hpasses : (∀ x ∈ xs, x.Passes I T r.home host row) ↔
      ∃ ds ∈ Inclusion.choices T host xs row, List.Forall₂
        (fun d x => Filter.Holds I (cellOf (d.row? x.aliasName)) x.request.filter) ds xs := by
    rw [Inclusion.choices, exists_mem_product_map]
    exact forall₂_congr fun x hx => Inclusion.passes_iff (hs.resolved x hx) (hs.fresh_root hx)
  have hkeeps {ds : List Combination} (hd : ds ∈ Inclusion.choices T host xs row) :
      s.keeps I ((host.table, some row) :: ds.flatten) ↔
        Filter.Holds I row.get o.filter ∧ List.Forall₂
          (fun d x => Filter.Holds I (cellOf (d.row? x.aliasName)) x.request.filter) ds xs := by
    rw [hs.keeps_iff h, hroot,
      hs.forall_includes hd fun cells x => Filter.Holds I cells x.request.filter]
  rw [Survives, hs.run_joins, hpasses]
  constructor
  · rintro ⟨c, hm, hk⟩
    obtain ⟨ds, hd, rfl⟩ := List.mem_map.mp hm
    obtain ⟨hf, hx⟩ := (hkeeps hd).mp hk
    exact ⟨hf, ds, hd, hx⟩
  · rintro ⟨hf, ds, hd, hx⟩
    exact ⟨_, List.mem_map_of_mem hd, (hkeeps hd).mpr ⟨hf, hx⟩⟩

/-- The keys a find is left with are those of the rows that are left. -/
theorem mem_rootKeys (hs : s.Planned r name o host xs) {v : Value} :
    v ∈ s.rootKeys I T name ↔ ∃ row ∈ T name, row.get host.primaryKey = v ∧ s.Survives I T row := by
  have hcell {row : Row} {c : Combination}
      (hc : c ∈ T.run s.source.joins [(s.source.aliasName, some row)]) :
      c.cell s.shape.root.aliasName s.shape.root.primaryKey = row.get host.primaryKey := by
    rw [hs.run_joins] at hc
    obtain ⟨ds, -, rfl⟩ := List.mem_map.mp hc
    simp [hs.rootAlias, hs.rootKey, Combination.cell, Combination.row?, cellOf]
  simp only [rootKeys, combinations, List.mem_map, List.mem_filter, List.mem_flatMap]
  constructor
  · rintro ⟨c, ⟨⟨row, hrow, hc⟩, hk⟩, rfl⟩
    exact ⟨row, hrow, (hcell hc).symm, c, hc, hk⟩
  · rintro ⟨row, hrow, rfl, c, hc, hk⟩
    exact ⟨c, ⟨⟨row, hrow, hc⟩, hk⟩, hcell hc⟩

end Select.Planned

/-! ### One include more -/

section

variable {r : Registry} {name : String} {o : FindOptions} {s s' : Select} {host : Entity}
  {xs : List Inclusion} {I : Interpretation} {T : Tables} {row : Row}

/-- Every include of a find passes a row, whichever way it is resolved. -/
theorem Select.Planned.forall_passes_iff (hs : s.Planned r name o host xs) :
    (∀ x ∈ xs, x.Passes I T r.home host row) ↔
      ∀ i ∈ o.includes, ∀ x : Inclusion, x.Resolved r host → x.request = i →
        x.Passes I T r.home host row := by
  rw [← hs.requests]
  constructor
  · rintro h i hi y hy rfl
    obtain ⟨x, hx, hreq⟩ := List.mem_map.mp hi
    exact ((hs.resolved x hx).passes_congr hy hreq).mp (h x hx)
  · intro h x hx
    exact h _ (List.mem_map_of_mem hx) x (hs.resolved x hx) rfl

/-- With one include more, of the rows that were left those are left that it passes. -/
theorem Select.Planned.survives_insert {i : Include} {before after : List Include}
    {xs' : List Inclusion}
    (hs : s.Planned r name { o with includes := before ++ after } host xs)
    (h : r.source host { o with includes := before ++ after } = .ok s.source)
    (hs' : s'.Planned r name { o with includes := before ++ i :: after } host xs')
    (h' : r.source host { o with includes := before ++ i :: after } = .ok s'.source)
    {x : Inclusion} (hx : x.Resolved r host) (hi : x.request = i) :
    s'.Survives I T row ↔ s.Survives I T row ∧ x.Passes I T r.home host row := by
  have hpasses : (∀ y : Inclusion, y.Resolved r host → y.request = i →
      y.Passes I T r.home host row) ↔ x.Passes I T r.home host row :=
    ⟨fun h => h x hx hi, fun h y hy hyi => (hx.passes_congr hy (hi.trans hyi.symm)).mp h⟩
  rw [hs.survives_iff h, hs'.survives_iff h', hs.forall_passes_iff, hs'.forall_passes_iff]
  simp only [List.forall_mem_append, List.forall_mem_cons, hpasses]
  tauto

end

/-- **An include that is not required leaves out the rows that its filter leaves out, and no
others.**  The roots that are left with it are those left without it for which its joins lead to a
row, or to the nulls of a join without a match, on which its filter means true; if it has no filter,
that is all of them. -/
theorem rootKeys_insert {r : Registry} {name : String} {o : FindOptions} {s s' : Select}
    {i : Include} {before after : List Include} (hi : i.required = false)
    (h : r.select name { o with includes := before ++ after } = .ok s)
    (h' : r.select name { o with includes := before ++ i :: after } = .ok s')
    (I : Interpretation) (T : Tables) :
    ∃ (host : Entity) (x : Inclusion), r.get? name = some host ∧ x.request = i ∧
      x.Resolved r host ∧
      (∀ v, v ∈ s.rootKeys I T name ↔
        ∃ row ∈ T name, row.get host.primaryKey = v ∧ s.Survives I T row) ∧
      (∀ v, v ∈ s'.rootKeys I T name ↔
        ∃ row ∈ T name, row.get host.primaryKey = v ∧ s.Survives I T row ∧
          ∃ c ∈ T.run (x.joins r.home host) [(host.table, some row)],
            Filter.Holds I (c.cell x.aliasName) i.filter) ∧
      (¬ Filter.given i.filter → ∀ v, v ∈ s'.rootKeys I T name ↔ v ∈ s.rootKeys I T name) := by
  obtain ⟨host, hh, hsource, -⟩ := Registry.select_eq_ok h
  obtain ⟨host', hh', hsource', -⟩ := Registry.select_eq_ok h'
  cases hh.symm.trans hh'
  obtain ⟨_, xs, hs⟩ := Registry.planned_of_select h
  cases hh.symm.trans hs.found
  obtain ⟨_, xs', hs'⟩ := Registry.planned_of_select h'
  cases hh.symm.trans hs'.found
  obtain ⟨x, hx, rfl⟩ : ∃ x ∈ xs', x.request = i := by
    refine List.mem_map.mp ?_
    rw [hs'.requests]
    exact List.mem_append_right before List.mem_cons_self
  have hres := hs'.resolved x hx
  have hsurvives (row : Row) :
      s'.Survives I T row ↔ s.Survives I T row ∧ x.Passes I T r.home host row :=
    hs.survives_insert hsource hs' hsource' hres rfl
  refine ⟨host, x, hh, rfl, hres, fun v => hs.mem_rootKeys, fun v => ?_, fun hg v => ?_⟩
  · rw [hs'.mem_rootKeys]
    exact exists_congr fun row => and_congr_right' (and_congr_right' (hsurvives row))
  · rw [hs.mem_rootKeys, hs'.mem_rootKeys]
    refine exists_congr fun row => and_congr_right' (and_congr_right' ?_)
    rw [hsurvives]
    exact and_iff_left (Inclusion.passes_of_not_given hres (hs'.fresh_root hx) hi hg)

theorem rootKeys_insert_library :
    ∃ s s', Registry.library.select "book"
        { catalogue with includes := [⟨"tag", some "tags", none, true, none⟩] } = .ok s ∧
      Registry.library.select "book" catalogue = .ok s' ∧
      ∀ v, v ∈ s'.rootKeys Filter.integers collection "book" ↔
        v ∈ s.rootKeys Filter.integers collection "book" := by
  obtain ⟨host, x, -, -, -, -, -, h⟩ := @rootKeys_insert Registry.library "book" catalogue _ _
    ⟨"chapter", some "chapters", none, false, none⟩ [] [⟨"tag", some "tags", none, true, none⟩]
    rfl rfl rfl Filter.integers collection
  exact ⟨_, _, rfl, rfl, h (by decide)⟩

/-- The chapters of one heading; books without such a chapter are asked for too. -/
def headed : Include :=
  ⟨"chapter", some "chapters", some [("heading", .scalar (.string "Two"))], false, none⟩

/-- A filter on an include leaves out rows although the include is not required: the second book
has no chapters. -/
theorem rootKeys_headed_library :
    Registry.library.Reached ∧ collection.Keyed Registry.library ∧ headed.required = false ∧
      ∃ s s', Registry.library.select "book" .all = .ok s ∧
        Registry.library.select "book" { FindOptions.all with includes := [headed] } = .ok s' ∧
        .int64 2 ∈ s.rootKeys Filter.integers collection "book" ∧
        .int64 2 ∉ s'.rootKeys Filter.integers collection "book" := by
  refine ⟨Registry.reached_library, keyed_collection, rfl, _, _, rfl, rfl, ?_, ?_⟩
  · obtain ⟨host, xs, hs⟩ := @Registry.planned_of_select Registry.library "book" .all _ rfl
    cases hs.found.symm.trans (rfl : Registry.library.get? "book" = some _)
    obtain rfl := List.map_eq_nil_iff.mp hs.requests
    refine hs.mem_rootKeys.mpr ⟨_, List.mem_cons_of_mem _ List.mem_cons_self, rfl, ?_⟩
    exact (hs.survives_iff rfl).mpr ⟨rfl, by simp⟩
  · obtain ⟨host, xs, hs⟩ := @Registry.planned_of_select Registry.library "book"
      { FindOptions.all with includes := [headed] } _ rfl
    cases hs.found.symm.trans (rfl : Registry.library.get? "book" = some _)
    rw [hs.mem_rootKeys]
    rintro ⟨row, hrow, hkey, hrest⟩
    obtain ⟨x, rfl, hi⟩ := List.map_eq_singleton_iff.mp hs.requests
    have hp := ((hs.survives_iff rfl).mp hrest).2 x List.mem_cons_self
    have hf := (hs.resolved x List.mem_cons_self).found
    obtain ⟨i, a, target, l, p⟩ := x
    obtain rfl : i = headed := hi
    cases hf.symm.trans (rfl : Registry.library.findAssociation _ headed = .ok _)
    rcases List.mem_cons.mp hrow with rfl | hrow
    · cases hkey
    · obtain rfl := List.mem_singleton.mp hrow
      -- the one combination has nulls for the chapter
      obtain ⟨c, hc, hholds⟩ := hp
      have hnull : c ∈ [[("book", some _), ("chapters", none)]] := hc
      obtain rfl := List.mem_singleton.mp hnull
      cases hholds

end RowGraph
