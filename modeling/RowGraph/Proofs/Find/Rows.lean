import RowGraph.Proofs.Find.Labels
import RowGraph.Proofs.Record.Product

/-!
# Proofs — Find — the flat rows of a find

The joins of a find are run as nested loops, one inside the other, over the rows stored for each
entity (`Tables.run`).  A null is equal to nothing; an outer join without a match goes on with no
row, an inner one does not go on.  The cells of each combination, under their labels, are a flat
row (`Select.flatRows`).

The loops of one include do not depend on those of another: what it adds to a combination are the
segments of the host's row (`Inclusion.segments`), so **the combinations of a host's row are the
product of its includes' segments** (`Tables.run_joins_inclusions`).  `Inclusion.related` says which
rows of the target these segments lead to.
-/

namespace RowGraph

/-! ### Stored rows -/

/-- The rows stored for each entity. -/
abbrev Tables := String → List Row

namespace Tables

/-- The rows of an entity in which a column is equal to a value; null is equal to nothing. -/
def matching (T : Tables) (entity column : String) (v : Value) : List Row :=
  if v.isNull then [] else (T entity).filter fun row => (row.get column).equal v

/-- No primary key is null and none stands twice. -/
structure Keyed (T : Tables) (r : Registry) : Prop where
  nonnull : ∀ e ∈ r.entities, ∀ row ∈ T e.name, (row.get e.primaryKey).isNull = false
  distinct : ∀ e ∈ r.entities,
    (T e.name).Pairwise fun a b => (a.get e.primaryKey).same (b.get e.primaryKey) = false

theorem mem_of_matching {T : Tables} {entity column : String} {v : Value} {row : Row}
    (h : row ∈ T.matching entity column v) : row ∈ T entity := by
  unfold matching at h
  split at h
  · cases h
  · exact List.mem_of_mem_filter h

end Tables

/-! ### Nested loops -/

/-- The rows joined so far by their aliases; there is none where an outer join had no match. -/
abbrev Combination := List (String × Option Row)

/-- A cell of a row, null if there is no row. -/
def cellOf (row : Option Row) (column : String) : Value := row.elim .null (·.get column)

namespace Combination

def row? (c : Combination) (aliasName : String) : Option Row :=
  (c.find? (·.1 == aliasName)).bind (·.2)

def cell (c : Combination) (aliasName column : String) : Value := cellOf (c.row? aliasName) column

end Combination

/-- What a join goes on with: an outer join without matches goes on without a row. -/
def JoinKind.keep : JoinKind → List Row → List (Option Row)
  | .leftOuter, [] => [none]
  | _, rows => rows.map some

/-- One loop: a combination with each row that matches it. -/
def Join.extend (T : Tables) (j : Join) (c : Combination) : List Combination :=
  (j.kind.keep (T.matching j.entity j.right.column (c.cell j.left.aliasName j.left.column))).map
    fun m => c ++ [(j.aliasName, m)]

/-- The loops of the joins, the first outermost. -/
def Tables.run (T : Tables) : List Join → Combination → List Combination
  | [], c => [c]
  | j :: js, c => (j.extend T c).flatMap (T.run js)

/-- The flat rows of a find on the entity `name`, in the order of the loops.  These are the rows of
its joins; nothing is filtered, grouped, sorted or cut off. -/
def Select.flatRows (s : Select) (T : Tables) (name : String) : List Row :=
  (T name).flatMap fun row =>
    (T.run s.source.joins [(s.source.aliasName, some row)]).map fun c => s.shape.flatRow c.cell

/-! ### One include -/

namespace Inclusion

/-- What an inclusion adds to the combinations of a row of its host. -/
def segments (T : Tables) (host : Entity) (x : Inclusion) (row : Row) : List Combination :=
  match x.route host with
  | some (.direct hostColumn targetColumn) =>
      (x.kind.keep (T.matching x.target.name targetColumn (row.get hostColumn))).map
        fun m => [(x.aliasName, m)]
  | some (.linked through otherKey) =>
      (x.kind.keep (T.matching through.name x.association.foreignKey
        (row.get host.primaryKey))).flatMap fun l =>
          (x.kind.keep (T.matching x.target.name x.target.primaryKey (cellOf l otherKey))).map
            fun m => [(throughAlias x.aliasName, l), (x.aliasName, m)]
  | none => [[]]

/-- The rows of the target a row of the host leads to, through the links in their order if there
are any. -/
def related (T : Tables) (host : Entity) (x : Inclusion) (row : Row) : List Row :=
  match x.route host with
  | some (.direct hostColumn targetColumn) =>
      T.matching x.target.name targetColumn (row.get hostColumn)
  | some (.linked through otherKey) =>
      (T.matching through.name x.association.foreignKey (row.get host.primaryKey)).flatMap
        fun l => T.matching x.target.name x.target.primaryKey (l.get otherKey)
  | none => []

end Inclusion

theorem throughAlias_ne (aliasName : String) : throughAlias aliasName ≠ aliasName := by
  intro h
  have hl := congrArg (fun s : String => s.toList.length) h
  have ht : "_through".toList.length = 8 := by decide
  simp only [throughAlias, String.toList_append, List.length_append, ht] at hl
  omega

namespace Combination

theorem row?_append_of_some {c : Combination} {aliasName : String} {row : Row}
    (h : c.row? aliasName = some row) (d : Combination) : (c ++ d).row? aliasName = some row := by
  rw [row?] at h
  obtain ⟨p, hp, hr⟩ := Option.bind_eq_some_iff.mp h
  rw [row?, List.find?_append, hp]
  exact hr

theorem row?_append_singleton {c : Combination} {aliasName : String}
    (h : aliasName ∉ c.map (·.1)) (m : Option Row) :
    (c ++ [(aliasName, m)]).row? aliasName = m := by
  have hn : c.find? (·.1 == aliasName) = none := by
    refine List.find?_eq_none.mpr fun p hp ha => h ?_
    exact List.mem_map.mpr ⟨p, hp, beq_iff_eq.mp ha⟩
  rw [row?, List.find?_append, hn]
  simp

theorem row?_of_mem {c : Combination} (hn : (c.map (·.1)).Nodup) {aliasName : String}
    {m : Option Row} (h : (aliasName, m) ∈ c) : c.row? aliasName = m := by
  induction c with
  | nil => cases h
  | cons p c ih =>
      obtain ⟨hp, hc⟩ := List.nodup_cons.mp hn
      rcases List.mem_cons.mp h with rfl | h
      · simp [row?]
      · have hne : ¬ p.1 = aliasName := by
          rintro rfl
          exact hp (List.mem_map.mpr ⟨_, h, rfl⟩)
        have hi := ih hc h
        simpa [row?, hne] using hi

/-- A name stands with its row. -/
theorem mem_row? {c : Combination} {aliasName : String} (h : aliasName ∈ c.map (·.1)) :
    (aliasName, c.row? aliasName) ∈ c := by
  induction c with
  | nil => cases h
  | cons p c ih =>
      by_cases hp : p.1 = aliasName
      · subst hp
        simp [row?]
      · have hi := ih (by simpa [Ne.symm hp] using h)
        have hc : row? (p :: c) aliasName = row? c aliasName := by simp [row?, hp]
        rw [hc]
        exact List.mem_cons_of_mem p hi

end Combination

theorem Tables.run_append (T : Tables) (js ks : List Join) (c : Combination) :
    T.run (js ++ ks) c = (T.run js c).flatMap (T.run ks) := by
  induction js generalizing c with
  | nil => simp [run]
  | cons j js ih =>
      rw [List.cons_append, run, run, List.flatMap_assoc]
      exact List.flatMap_congr fun d _ => ih d

theorem Tables.run_singleton (T : Tables) (j : Join) (c : Combination) :
    T.run [j] c = j.extend T c := by
  rw [run]
  exact List.flatMap_singleton' _

namespace Inclusion

variable {T : Tables} {home : Namespace} {host : Entity} {x : Inclusion} {row : Row}

/-- The loops of an inclusion add its segments. -/
theorem run_joins {c : Combination} (hc : c.row? host.table = some row)
    (hf : ∀ a ∈ (x.joins home host).map (·.aliasName), a ∉ c.map (·.1)) :
    T.run (x.joins home host) c = (x.segments T host row).map (c ++ ·) := by
  have hcell : ∀ column, c.cell host.table column = row.get column := fun column => by
    rw [Combination.cell, hc]
    rfl
  rcases hρ : x.route host with _ | ⟨hostColumn, targetColumn⟩ | ⟨through, otherKey⟩
  · simp [joins, segments, hρ, Tables.run]
  · simp only [joins, segments, hρ, Tables.run_singleton, Join.extend, targetJoin, hcell,
      List.map_map]
    rfl
  · -- the link is new to the combination, so the second loop finds it there
    rw [joins, hρ] at hf
    have hfresh : throughAlias x.aliasName ∉ c.map (·.1) := hf _ List.mem_cons_self
    have hlink : ∀ l, (c ++ [(throughAlias x.aliasName, l)]).cell (throughAlias x.aliasName)
        otherKey = cellOf l otherKey := fun l => by
      rw [Combination.cell, Combination.row?_append_singleton hfresh]
    simp only [joins, segments, hρ]
    rw [Tables.run]
    simp only [Tables.run_singleton, Join.extend, linkJoin, targetJoin, hcell, List.flatMap_map,
      List.map_flatMap, List.map_map, hlink]
    refine List.flatMap_congr fun l _ => List.map_congr_left fun m _ => ?_
    exact List.append_assoc c [(throughAlias x.aliasName, l)] [(x.aliasName, m)]

/-- A segment has a row, or none, for each join of its inclusion. -/
theorem names_of_mem_segments {d : Combination} (hd : d ∈ x.segments T host row) :
    d.map (·.1) = (x.joins home host).map (·.aliasName) := by
  unfold segments at hd
  rcases hρ : x.route host with _ | ⟨hostColumn, targetColumn⟩ | ⟨through, otherKey⟩
  · rw [hρ, List.mem_singleton] at hd
    rw [hd, joins, hρ]
    rfl
  · rw [hρ] at hd
    obtain ⟨m, -, rfl⟩ := List.mem_map.mp hd
    rw [joins, hρ]
    rfl
  · rw [hρ] at hd
    obtain ⟨l, -, hd⟩ := List.mem_flatMap.mp hd
    obtain ⟨m, -, rfl⟩ := List.mem_map.mp hd
    rw [joins, hρ]
    rfl

/-! ### The target's rows -/

theorem filterMap_keep (k : JoinKind) (rows : List Row) : (k.keep rows).filterMap id = rows := by
  have h : (rows.map some).filterMap id = rows := by
    rw [List.filterMap_map]
    exact List.filterMap_some
  cases k with
  | inner => exact h
  | leftOuter =>
      cases rows with
      | nil => rfl
      | cons row rows => exact h

/-- Without a row there is nothing further to find. -/
theorem flatMap_keep (k : JoinKind) (rows : List Row) {f : Option Row → List Row}
    (hf : f none = []) : (k.keep rows).flatMap f = rows.flatMap fun row => f (some row) := by
  have h : (rows.map some).flatMap f = rows.flatMap fun row => f (some row) := List.flatMap_map ..
  cases k with
  | inner => exact h
  | leftOuter =>
      cases rows with
      | nil => simp [JoinKind.keep, hf]
      | cons row rows => exact h

theorem keep_eq_nil {k : JoinKind} {rows : List Row} :
    k.keep rows = [] ↔ k = .inner ∧ rows = [] := by
  cases k <;> cases rows <;> simp [JoinKind.keep]

theorem row?_direct (aliasName : String) (m : Option Row) :
    Combination.row? [(aliasName, m)] aliasName = m := by
  simp [Combination.row?]

theorem row?_linked (aliasName : String) (l m : Option Row) :
    Combination.row? [(throughAlias aliasName, l), (aliasName, m)] aliasName = m := by
  simp [Combination.row?, throughAlias_ne]

/-- The rows that the segments have for the target are the related ones. -/
theorem filterMap_segments (T : Tables) (host : Entity) (x : Inclusion) (row : Row) :
    (x.segments T host row).filterMap (·.row? x.aliasName) = x.related T host row := by
  unfold segments related
  rcases x.route host with _ | ⟨hostColumn, targetColumn⟩ | ⟨through, otherKey⟩
  · rfl
  · rw [List.filterMap_map]
    simp only [Function.comp_def, row?_direct]
    exact filterMap_keep _ _
  · have hl : ∀ l : Option Row, (x.kind.keep (T.matching x.target.name x.target.primaryKey
        (cellOf l otherKey))).filterMap (fun m => m) =
          T.matching x.target.name x.target.primaryKey (cellOf l otherKey) :=
      fun l => filterMap_keep _ _
    simp only [List.filterMap_flatMap, List.filterMap_map, Function.comp_def, row?_linked, hl]
    exact flatMap_keep _ _ rfl

/-- There are no segments exactly if the include is required and leads to no row. -/
theorem segments_eq_nil {r : Registry} (hx : x.Resolved r host) :
    x.segments T host row = [] ↔ x.request.required ∧ x.related T host row = [] := by
  have hkind : x.kind = .inner ↔ x.request.required := by
    rw [kind, JoinKind.ofRequired]
    cases x.request.required <;> simp
  obtain ⟨ρ, hρ⟩ := hx.exists_route
  unfold segments related
  rw [hρ]
  cases ρ with
  | direct hostColumn targetColumn =>
      rw [List.map_eq_nil_iff, keep_eq_nil, hkind]
  | linked through otherKey =>
      simp only [List.flatMap_eq_nil_iff, List.map_eq_nil_iff, keep_eq_nil, hkind]
      constructor
      · intro h
        -- an outer join would have gone on, if only without a row
        by_cases hk : x.kind = .inner
        · refine ⟨hkind.mp hk, fun l hl => (h (some l) ?_).2⟩
          rw [hk]
          exact List.mem_map_of_mem hl
        · obtain ⟨l, hl⟩ := List.exists_mem_of_ne_nil _ fun hn => hk (keep_eq_nil.mp hn).1
          exact absurd (hkind.mpr (h l hl).1) hk
      · rintro ⟨hreq, h⟩ l hl
        rw [hkind.mpr hreq] at hl
        obtain ⟨row, hrow, rfl⟩ := List.mem_map.mp hl
        exact ⟨hreq, h row hrow⟩

theorem mem_of_related {row' : Row} (h : row' ∈ x.related T host row) : row' ∈ T x.target.name := by
  unfold related at h
  split at h
  case h_1 => exact Tables.mem_of_matching h
  case h_2 =>
      obtain ⟨l, -, h⟩ := List.mem_flatMap.mp h
      exact Tables.mem_of_matching h
  case h_3 => cases h

end Inclusion

/-! ### All includes -/

/-- **The combinations of a host's row are the product of the segments of its includes**, if no
two joins have one alias. -/
theorem Tables.run_joins_inclusions {T : Tables} {home : Namespace} {host : Entity} {row : Row}
    {xs : List Inclusion} {c : Combination} (hc : c.row? host.table = some row)
    (hn : (c.map (·.1) ++ (xs.flatMap (Inclusion.joins home host)).map (·.aliasName)).Nodup) :
    T.run (xs.flatMap (Inclusion.joins home host)) c =
      (product (xs.map fun x => x.segments T host row)).map fun ds => c ++ ds.flatten := by
  induction xs generalizing c with
  | nil => simp [run, product]
  | cons x xs ih =>
      rw [List.flatMap_cons, List.map_append, ← List.append_assoc] at hn
      have hf : ∀ a ∈ (x.joins home host).map (·.aliasName), a ∉ c.map (·.1) := by
        intro a ha hca
        exact List.disjoint_of_nodup_append (List.Nodup.of_append_left hn) hca ha
      rw [List.flatMap_cons, run_append, Inclusion.run_joins hc hf, List.flatMap_map, List.map_cons,
        product, List.map_flatMap]
      refine List.flatMap_congr fun d hd => ?_
      have hd' : (c ++ d).map (·.1) = c.map (·.1) ++ (x.joins home host).map (·.aliasName) := by
        rw [List.map_append, Inclusion.names_of_mem_segments hd]
      rw [ih (Combination.row?_append_of_some hc d) (by rwa [hd']), List.map_map]
      refine List.map_congr_left fun ds _ => ?_
      simp

end RowGraph
