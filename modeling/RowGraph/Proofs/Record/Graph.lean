import RowGraph.Proofs.Find.Rows
import RowGraph.Proofs.Record.Gathered

/-!
# Proofs — Record — the graph of a find

The records of a find are what its associations say, row by row of the host (`Select.graph`): one
record for each row for which every required include leads to a row, with the columns of the row
and a field for each include.  A field for many rows has every related row once, in the order of
the matches, and a field for one has the last of them, if there is any.

**Joining and folding back gives this graph** (`records_flatRows`).  The combinations of a host's
row are a product, and they follow each other without those of another row in between; so they make
one group, and folding the product is folding each include by itself (`foldl_act_product`).
-/

namespace RowGraph

/-! ### The graph -/

namespace Inclusion

/-- Does the include leave a row of the host in? -/
def admits (T : Tables) (host : Entity) (x : Inclusion) (row : Row) : Bool :=
  !x.request.required || !(x.related T host row).isEmpty

/-- The field of an include in the record of a row: each related row once, or the last one. -/
def field (T : Tables) (host : Entity) (x : Inclusion) (row : Row) : Field :=
  if x.association.kind.isMany then
    .many ((x.shape.table.firsts (x.related T host row)).map x.shape.table.cells)
  else .one ((x.related T host row).getLast?.map x.shape.table.cells)

end Inclusion

namespace Select

/-- The record of a row of the host. -/
def graphRecord (s : Select) (T : Tables) (host : Entity) (xs : List Inclusion) (row : Row) :
    Record :=
  ⟨(s.shape.root.cells row).map (fun c => (c.1, .value c.2)) ++
    xs.map fun x => (x.aliasName, x.field T host row)⟩

/-- The records of the rows of the host that every include leaves in. -/
def graph (s : Select) (T : Tables) (host : Entity) (xs : List Inclusion) : List Record :=
  ((T host.name).filter fun row => xs.all (·.admits T host row)).map (s.graphRecord T host xs)

end Select

/-! ### Groups of one key -/

namespace Shape

variable {s : Shape} {k : Value} {gs : List Group}

theorem addRow_of_not_same (h : ∀ g ∈ gs, g.key.same k = false) (row : Row) :
    s.addRow k row gs = gs ++ [(Group.start s k row).absorb s row] := by
  induction gs with
  | nil => rfl
  | cons g gs ih =>
      rw [addRow, h g List.mem_cons_self, ih fun g' hg => h g' (List.mem_cons_of_mem g hg)]
      rfl

theorem addRow_append (h : ∀ g ∈ gs, g.key.same k = false) {g : Group} (hg : g.key = k)
    (row : Row) : s.addRow k row (gs ++ [g]) = gs ++ [g.absorb s row] := by
  induction gs with
  | nil =>
      rw [List.nil_append, List.nil_append, addRow, hg, Value.same_refl k]
      rfl
  | cons g' gs ih =>
      rw [List.cons_append, addRow, h g' List.mem_cons_self,
        ih fun g'' hm => h g'' (List.mem_cons_of_mem g' hm)]
      rfl

/-- Rows of one key are absorbed by one group, the last. -/
theorem foldl_step_append {rows : List Row} (hk : k.isNull = false)
    (hrows : ∀ row ∈ rows, row.get s.root.keyLabel = k) (h : ∀ g ∈ gs, g.key.same k = false)
    {g : Group} (hg : g.key = k) :
    rows.foldl s.step (gs ++ [g]) = gs ++ [rows.foldl (fun g row => g.absorb s row) g] := by
  induction rows generalizing g with
  | nil => rfl
  | cons row rows ih =>
      have hr := hrows row List.mem_cons_self
      rw [List.foldl_cons, step, hr, hk]
      rw [if_neg Bool.false_ne_true, addRow_append h hg]
      exact ih (fun r hm => hrows r (List.mem_cons_of_mem row hm)) (g := g.absorb s row) hg

/-- Rows of a key not met before make one group. -/
theorem foldl_step {rows : List Row} (hne : rows ≠ []) (hk : k.isNull = false)
    (hrows : ∀ row ∈ rows, row.get s.root.keyLabel = k) (h : ∀ g ∈ gs, g.key.same k = false)
    {cells : Cells} (hcells : ∀ row ∈ rows, s.root.project row = cells) :
    rows.foldl s.step gs = gs ++
      [rows.foldl (fun g row => g.absorb s row) ⟨k, cells, s.includes.map Gathered.start⟩] := by
  rcases rows with _ | ⟨row, rows⟩
  · exact absurd rfl hne
  · have hr := hrows row List.mem_cons_self
    have hstart : Group.start s k row = ⟨k, cells, s.includes.map Gathered.start⟩ := by
      rw [Group.start, hcells row List.mem_cons_self]
    rw [List.foldl_cons, step, hr, hk, if_neg Bool.false_ne_true, addRow_of_not_same h,
      hstart, List.foldl_cons]
    exact foldl_step_append hk (fun r hm => hrows r (List.mem_cons_of_mem row hm)) h rfl

/-- Absorbing rows changes what is gathered and nothing else. -/
theorem foldl_absorb (rows : List Row) (g : Group) :
    rows.foldl (fun g row => g.absorb s row) g =
      ⟨g.key, g.cells, rows.foldl
        (fun gs row => s.includes.zipWith (fun i x => x.absorb i.table row) gs) g.gathered⟩ := by
  induction rows generalizing g with
  | nil => rfl
  | cons row rows ih => exact ih (g.absorb s row)

end Shape

/-! ### The combinations of one row -/

/-- A flat row with the cells of a row of the table, or nulls, is taken like that row. -/
theorem Gathered.absorb_eq_take {t : TableShape} {flat : Row} {m : Option Row}
    (hk : flat.get t.keyLabel = cellOf m t.primaryKey)
    (hp : t.project flat = t.columns.map fun c => (c, cellOf m c))
    (hn : ∀ row, m = some row → (t.key row).isNull = false) (g : Gathered) :
    g.absorb t flat = take t g m := by
  rw [absorb, hk, hp]
  cases m with
  | none => rfl
  | some row =>
      have hr : (cellOf (some row) t.primaryKey).isNull = false := hn row rfl
      rw [hr, if_neg Bool.false_ne_true]
      rfl

/-- The ways to choose a segment for each include. -/
def Inclusion.choices (T : Tables) (host : Entity) (xs : List Inclusion) (row : Row) :
    List (List Combination) :=
  product (xs.map fun x => x.segments T host row)

/-- The flat row of a host's row with a segment for each include. -/
def Select.flat (s : Select) (host : Entity) (row : Row) (ds : List Combination) : Row :=
  s.shape.flatRow (Combination.cell ((host.table, some row) :: ds.flatten))

namespace Select.Planned

variable {r : Registry} {name : String} {o : FindOptions} {s : Select} {host : Entity}
  {xs : List Inclusion} {T : Tables} {row : Row} {ds : List Combination}

theorem run_joins (hs : s.Planned r name o host xs) (T : Tables) (row : Row) :
    T.run s.source.joins [(s.source.aliasName, some row)] =
      (Inclusion.choices T host xs row).map fun ds => (host.table, some row) :: ds.flatten := by
  have hn := hs.aliases
  rw [hs.joins] at hn
  have hc : Combination.row? [(host.table, some row)] host.table = some row := by
    simp [Combination.row?]
  rw [hs.joins, hs.sourceAlias]
  exact Tables.run_joins_inclusions hc hn

/-- Each segment of a combination with the inclusion it belongs to. -/
theorem forall₂_segments (hd : ds ∈ Inclusion.choices T host xs row) :
    List.Forall₂ (fun d x => d ∈ x.segments T host row) ds xs :=
  List.forall₂_map_right_iff.mp (mem_product.mp hd)

theorem names_flatten (home : Namespace)
    (h : List.Forall₂ (fun d x => d ∈ x.segments T host row) ds xs) :
    ds.flatten.map (·.1) = (xs.flatMap (Inclusion.joins home host)).map (·.aliasName) := by
  induction h with
  | nil => rfl
  | cons hd _ ih =>
      rw [List.flatten_cons, List.map_append, ih, List.flatMap_cons, List.map_append,
        Inclusion.names_of_mem_segments hd]

/-- A combination names each table once. -/
theorem nodup_names (hs : s.Planned r name o host xs)
    (hd : ds ∈ Inclusion.choices T host xs row) :
    (((host.table, some row) :: ds.flatten : Combination).map (·.1)).Nodup := by
  have hn := hs.aliases
  rw [hs.joins] at hn
  rw [List.map_cons, names_flatten r.home (forall₂_segments hd)]
  exact hn

/-- The host's columns are those of its row. -/
theorem project_root (hs : s.Planned r name o host xs) (hn : s.shape.labels.Nodup) :
    s.shape.root.project (s.flat host row ds) = s.shape.root.cells row := by
  have hroot : s.shape.root ∈ s.shape.tables := List.mem_cons_self
  rw [Select.flat, Shape.project_flatRow hn _ hroot, hs.rootAlias]
  refine List.map_congr_left fun c _ => ?_
  rw [Combination.cell, Combination.row?]
  simp [cellOf]

theorem get_rootKey (hs : s.Planned r name o host xs) (hn : s.shape.labels.Nodup) :
    (s.flat host row ds).get s.shape.root.keyLabel = row.get host.primaryKey := by
  have hroot : s.shape.root ∈ s.shape.tables := List.mem_cons_self
  have hkey := (hs.keyed _ hroot).key_mem
  rw [Select.flat, TableShape.keyLabel, Shape.get_flatRow hn _ hroot hkey, hs.rootAlias, hs.rootKey,
    Combination.cell, Combination.row?]
  simp [cellOf]

/-- What a combination has for an include is what its segment has. -/
theorem row?_include (hs : s.Planned r name o host xs)
    (hd : ds ∈ Inclusion.choices T host xs row) {d : Combination} (hm : d ∈ ds)
    {x : Inclusion} (hx : x.Resolved r host) (hdx : d ∈ x.segments T host row) :
    Combination.row? ((host.table, some row) :: ds.flatten) x.aliasName =
      d.row? x.aliasName := by
  have ha : x.aliasName ∈ d.map (·.1) := by
    rw [Inclusion.names_of_mem_segments hdx]
    exact Registry.mem_aliases r.home hx
  refine Combination.row?_of_mem (hs.nodup_names hd) (List.mem_cons_of_mem _ ?_)
  exact List.mem_flatten.mpr ⟨d, hm, Combination.mem_row? ha⟩

/-- A row that an include leads to is keyed. -/
theorem nonnull_of_related (hT : T.Keyed r) {x : Inclusion} (hx : x.Resolved r host) {row' : Row}
    (h : row' ∈ x.related T host row) : (x.shape.table.key row').isNull = false := by
  obtain ⟨ht, -, -⟩ := Registry.findAssociation_eq_ok hx.found
  exact hT.nonnull _ (Registry.mem_of_get? ht) _ (Inclusion.mem_of_related h)

/-- The includes absorb a flat row by taking what their segments have. -/
theorem absorb_flat (hs : s.Planned r name o host xs) (hn : s.shape.labels.Nodup) (hT : T.Keyed r)
    (hd : ds ∈ Inclusion.choices T host xs row) (gs : List Gathered) :
    s.shape.includes.zipWith (fun i g => g.absorb i.table (s.flat host row ds)) gs =
      act (fun x g (d : Combination) => Gathered.take x.shape.table g (d.row? x.aliasName))
        xs gs ds := by
  rw [hs.includes, List.zipWith_map_left]
  refine zipWith_eq_act ?_ gs
  have hseg := forall₂_segments hd
  rw [List.forall₂_iff_zip] at hseg ⊢
  refine ⟨hseg.1, fun {d x} hz g => ?_⟩
  obtain ⟨hm, hx⟩ := List.of_mem_zip hz
  have ht : x.shape.table ∈ s.shape.tables := by
    rw [hs.tables]
    exact List.mem_cons_of_mem _ (List.mem_map_of_mem hx)
  have hrow : ∀ c, Combination.cell ((host.table, some row) :: ds.flatten) x.aliasName c =
      cellOf (d.row? x.aliasName) c := fun c => by
    rw [Combination.cell, hs.row?_include hd hm (hs.resolved x hx) (hseg.2 hz)]
  refine Gathered.absorb_eq_take ?_ ?_ (fun row' h => ?_) g
  · rw [Select.flat, TableShape.keyLabel, Shape.get_flatRow hn _ ht (hs.keyed _ ht).key_mem]
    exact hrow _
  · rw [Select.flat, Shape.project_flatRow hn _ ht]
    exact List.map_congr_left fun c _ => congrArg (c, ·) (hrow c)
  · have hrel : row' ∈ x.related T host row := by
      rw [← Inclusion.filterMap_segments]
      exact List.mem_filterMap.mpr ⟨d, hseg.2 hz, h⟩
    exact nonnull_of_related hT (hs.resolved x hx) hrel

end Select.Planned

/-! ### Groups of the host's rows -/

/-- What an include has gathered when its segments have been taken. -/
def Inclusion.gathered (T : Tables) (host : Entity) (row : Row) (x : Inclusion) : Gathered :=
  ((x.segments T host row).map (·.row? x.aliasName)).foldl (Gathered.take x.shape.table)
    (Gathered.start x.shape)

theorem Inclusion.field_gathered (T : Tables) (host : Entity) (row : Row) (x : Inclusion) :
    (x.gathered T host row).field = x.field T host row := by
  have hrel : ((x.segments T host row).map (·.row? x.aliasName)).filterMap id =
      x.related T host row := by
    rw [List.filterMap_map]
    exact Inclusion.filterMap_segments T host x row
  rw [gathered, Gathered.field_foldl_take, hrel]
  rfl

/-- The group of a row of the host. -/
def Select.rootGroup (s : Select) (T : Tables) (host : Entity) (xs : List Inclusion) (row : Row) :
    Group :=
  ⟨row.get host.primaryKey, s.shape.root.cells row, xs.map (·.gathered T host row)⟩

namespace Select.Planned

variable {r : Registry} {name : String} {o : FindOptions} {s : Select} {host : Entity}
  {xs : List Inclusion} {T : Tables} {row : Row}

/-- Absorbing the combinations of a row, each include takes its own segments. -/
theorem foldl_absorb_flat (hs : s.Planned r name o host xs) (hn : s.shape.labels.Nodup)
    (hT : T.Keyed r)
    (hsegs : ∀ l ∈ xs.map fun x => x.segments T host row, l ≠ []) :
    (Inclusion.choices T host xs row).foldl
        (fun gs ds => s.shape.includes.zipWith
          (fun i g => g.absorb i.table (s.flat host row ds)) gs)
        (s.shape.includes.map Gathered.start) = xs.map (·.gathered T host row) := by
  have hstart : s.shape.includes.map Gathered.start =
      xs.map fun x => Gathered.start x.shape := by
    rw [hs.includes, List.map_map]
    rfl
  have hidem : ∀ (x : Inclusion) (g : Gathered) (l : List Combination),
      l.foldl (fun g d => Gathered.take x.shape.table g (d.row? x.aliasName))
          (l.foldl (fun g d => Gathered.take x.shape.table g (d.row? x.aliasName)) g) =
        l.foldl (fun g d => Gathered.take x.shape.table g (d.row? x.aliasName)) g := by
    intro x g l
    have h := Gathered.foldl_take_idem x.shape.table g (l.map (·.row? x.aliasName))
    simpa only [List.foldl_map] using h
  rw [List.foldl_ext _ _ _ fun gs ds hd => hs.absorb_flat hn hT hd gs, hstart,
    Inclusion.choices, foldl_act_product hidem _ _ hsegs, act_map]
  refine List.map_congr_left fun x _ => ?_
  rw [Inclusion.gathered, List.foldl_map]

/-- The combinations of a row whose includes all have segments make its group. -/
theorem foldl_flat (hs : s.Planned r name o host xs) (hn : s.shape.labels.Nodup) (hT : T.Keyed r)
    (hx : ∀ x ∈ xs, x.segments T host row ≠ []) (hk : (row.get host.primaryKey).isNull = false)
    {gs : List Group} (hgs : ∀ g ∈ gs, g.key.same (row.get host.primaryKey) = false) :
    ((Inclusion.choices T host xs row).map (s.flat host row)).foldl
        s.shape.step gs = gs ++ [s.rootGroup T host xs row] := by
  have hsegs : ∀ l ∈ xs.map fun x => x.segments T host row, l ≠ [] := by
    rintro l hl
    obtain ⟨x, hm, rfl⟩ := List.mem_map.mp hl
    exact hx x hm
  have hne : (Inclusion.choices T host xs row).map (s.flat host row) ≠ [] :=
    List.map_eq_nil_iff.not.mpr (product_ne_nil hsegs)
  have hkey : ∀ f ∈ (Inclusion.choices T host xs row).map (s.flat host row),
      f.get s.shape.root.keyLabel = row.get host.primaryKey := by
    intro f hf
    obtain ⟨ds, -, rfl⟩ := List.mem_map.mp hf
    exact hs.get_rootKey hn
  have hcells : ∀ f ∈ (Inclusion.choices T host xs row).map (s.flat host row),
      s.shape.root.project f = s.shape.root.cells row := by
    intro f hf
    obtain ⟨ds, -, rfl⟩ := List.mem_map.mp hf
    exact hs.project_root hn
  rw [Shape.foldl_step hne hk hkey hgs hcells, Shape.foldl_absorb, List.foldl_map,
    hs.foldl_absorb_flat hn hT hsegs, Select.rootGroup]

/-- The combinations of a row of the host make its group, or nothing if an include leaves it
out. -/
theorem foldl_run (hs : s.Planned r name o host xs) (hn : s.shape.labels.Nodup) (hT : T.Keyed r)
    (hk : (row.get host.primaryKey).isNull = false)
    {gs : List Group} (hgs : ∀ g ∈ gs, g.key.same (row.get host.primaryKey) = false) :
    ((T.run s.source.joins [(s.source.aliasName, some row)]).map
        fun c => s.shape.flatRow c.cell).foldl s.shape.step gs =
      gs ++ ([row].filter fun row => xs.all (·.admits T host row)).map (s.rootGroup T host xs) := by
  have hadmits : ∀ x ∈ xs, x.admits T host row = true ↔ x.segments T host row ≠ [] := by
    intro x hx
    rw [Ne, Inclusion.segments_eq_nil (hs.resolved x hx), Inclusion.admits]
    cases x.request.required <;> simp
  rw [hs.run_joins T row, List.map_map]
  by_cases ha : xs.all (·.admits T host row) = true
  · have hx : ∀ x ∈ xs, x.segments T host row ≠ [] := fun x hm =>
      (hadmits x hm).mp (List.all_eq_true.mp ha x hm)
    rw [List.filter_cons_of_pos (p := fun row => xs.all (·.admits T host row)) ha]
    exact hs.foldl_flat hn hT hx hk hgs
  · have hp : Inclusion.choices T host xs row = [] := by
      obtain ⟨x, hx, hne⟩ : ∃ x ∈ xs, ¬ x.admits T host row = true := by
        simpa using ha
      refine product_eq_nil.mpr ⟨_, List.mem_map_of_mem hx, ?_⟩
      exact not_not.mp ((hadmits x hx).not.mp hne)
    rw [hp, List.filter_cons_of_neg (p := fun row => xs.all (·.admits T host row)) ha]
    simp

/-- Rows of the host with different keys make a group each, in their order. -/
theorem foldl_rows (hs : s.Planned r name o host xs) (hn : s.shape.labels.Nodup) (hT : T.Keyed r)
    {rows : List Row}
    (hk : ∀ row ∈ rows, (row.get host.primaryKey).isNull = false)
    (hd : rows.Pairwise fun a b => (a.get host.primaryKey).same (b.get host.primaryKey) = false)
    {gs : List Group}
    (hgs : ∀ g ∈ gs, ∀ row ∈ rows, g.key.same (row.get host.primaryKey) = false) :
    (rows.flatMap fun row => (T.run s.source.joins [(s.source.aliasName, some row)]).map
        fun c => s.shape.flatRow c.cell).foldl s.shape.step gs =
      gs ++ (rows.filter fun row => xs.all (·.admits T host row)).map (s.rootGroup T host xs) := by
  induction rows generalizing gs with
  | nil => simp
  | cons row rows ih =>
      obtain ⟨hdr, hdrs⟩ := List.pairwise_cons.mp hd
      have hrun := hs.foldl_run hn hT (hk row List.mem_cons_self)
        fun g hg => hgs g hg row List.mem_cons_self
      rw [List.flatMap_cons, List.foldl_append, hrun,
        ih (fun row' hm => hk row' (List.mem_cons_of_mem row hm)) hdrs ?_, List.append_assoc,
        ← List.map_append, ← List.filter_append, List.singleton_append]
      intro g hg row' hm
      rcases List.mem_append.mp hg with hg | hg
      · exact hgs g hg row' (List.mem_cons_of_mem row hm)
      · obtain ⟨row'', hr'', rfl⟩ := List.mem_map.mp hg
        rw [List.mem_singleton.mp (List.mem_of_mem_filter hr'')]
        exact hdr row' hm

theorem record_group (hs : s.Planned r name o host xs) :
    (s.rootGroup T host xs row).record s.shape = s.graphRecord T host xs row := by
  rw [Group.record, Select.graphRecord, Select.rootGroup, hs.includes, List.zipWith_map,
    List.zipWith_self]
  refine congrArg (fun fs => Record.mk (_ ++ fs)) (List.map_congr_left fun x _ => ?_)
  rw [x.field_gathered]
  rfl

end Select.Planned

/-! ### The graph is read back -/

/-- A row that is stored is told by its key. -/
theorem Tables.Keyed.eq_of_key {T : Tables} {r : Registry} (hT : T.Keyed r) {e : Entity}
    (he : e ∈ r.entities) {a b : Row} (ha : a ∈ T e.name) (hb : b ∈ T e.name)
    (h : (a.get e.primaryKey).same (b.get e.primaryKey)) : a = b := by
  have : Std.Symm fun a b : Row => (a.get e.primaryKey).same (b.get e.primaryKey) = false := by
    refine ⟨fun a b h => ?_⟩
    by_contra hs
    have hk := Value.eq_of_same (eq_true_of_ne_false hs)
    rw [hk, Value.same_refl] at h
    cases h
  by_contra hne
  have hd := (hT.distinct e he).forall ha hb hne
  rw [h] at hd
  cases hd

/-- **Joining and folding back gives the graph**: the records of a find's flat rows are the
records of the host's rows that its includes let in, and an include for many rows has every
related row once, in the order of the matches. -/
theorem records_flatRows {r : Registry} {name : String} {o : FindOptions} {s : Select}
    (h : r.select name o = .ok s) (hi : o.includes ≠ []) (hn : s.shape.labels.Nodup) {T : Tables}
    (hT : T.Keyed r) :
    ∃ host xs, s.Planned r name o host xs ∧
      s.shape.records (s.flatRows T name) = s.graph T host xs ∧
      ∀ x ∈ xs, ∀ row ∈ T name,
        x.shape.table.Once (x.related T host row)
          (x.shape.table.firsts (x.related T host row)) := by
  obtain ⟨host, xs, hs⟩ := Registry.planned_of_select h
  have hhost := Registry.mem_of_get? hs.found
  have hname := Registry.name_of_get? hs.found
  subst hname
  refine ⟨host, xs, hs, ?_, ?_⟩
  · have hne : ¬ s.shape.includes.isEmpty = true := by
      rw [hs.includes, List.isEmpty_iff, List.map_eq_nil_iff]
      rintro rfl
      exact hi hs.requests.symm
    have hgroups : s.shape.groups (s.flatRows T host.name) =
        [] ++ ((T host.name).filter fun row => xs.all (·.admits T host row)).map
          (s.rootGroup T host xs) :=
      hs.foldl_rows hn hT (hT.nonnull host hhost) (hT.distinct host hhost)
        fun _ hg => absurd hg List.not_mem_nil
    rw [Shape.records, if_neg hne, hgroups, List.nil_append, List.map_map, Select.graph]
    exact List.map_congr_left fun row _ => hs.record_group
  · intro x hx row _
    obtain ⟨ht, -, -⟩ := Registry.findAssociation_eq_ok (hs.resolved x hx).found
    refine TableShape.once_firsts fun a ha b hb hk => ?_
    exact hT.eq_of_key (Registry.mem_of_get? ht) (Inclusion.mem_of_related ha)
      (Inclusion.mem_of_related hb) hk

/-- Two books, of which the first has two chapters and is linked to one tag twice. -/
def collection : Tables
  | "book" =>
      [.ofList [("id", .int64 1), ("title", .string "A")],
        .ofList [("id", .int64 2), ("title", .string "B")]]
  | "chapter" =>
      [.ofList [("id", .int64 1), ("heading", .string "One"), ("book_id", .int64 1)],
        .ofList [("id", .int64 2), ("heading", .string "Two"), ("book_id", .int64 1)]]
  | "tag" => [.ofList [("id", .int64 7), ("label", .string "new")]]
  | "book_tag" =>
      [.ofList [("id", .int64 1), ("book_id", .int64 1), ("tag_id", .int64 7)],
        .ofList [("id", .int64 2), ("book_id", .int64 1), ("tag_id", .int64 7)]]
  | _ => []

theorem keyed_collection : collection.Keyed Registry.library where
  nonnull := by decide
  distinct := by decide

theorem records_flatRows_library :
    ∃ s host xs, Registry.library.select "book" catalogue = .ok s ∧
      s.Planned Registry.library "book" catalogue host xs ∧
      s.graph collection host xs =
        [⟨[("id", .value (.int64 1)), ("title", .value (.string "A")),
          ("chapters", .many
            [[("id", .int64 1), ("heading", .string "One"), ("book_id", .int64 1)],
              [("id", .int64 2), ("heading", .string "Two"), ("book_id", .int64 1)]]),
          ("tags", .many [[("id", .int64 7), ("label", .string "new")]])]⟩] := by
  obtain ⟨host, xs, hs, hg, -⟩ :=
    @records_flatRows Registry.library "book" catalogue _ rfl (List.cons_ne_nil _ _)
      (by decide) collection keyed_collection
  exact ⟨_, host, xs, rfl, hs, hg.symm.trans rfl⟩

end RowGraph
