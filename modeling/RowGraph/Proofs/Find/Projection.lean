import RowGraph.Proofs.Find.Scope
import RowGraph.Proofs.Find.Labels
import RowGraph.Proofs.Find.Tables
import RowGraph.Proofs.Schema.Run
import RowGraph.Record.Fold

/-!
# Proofs — Find — columns that are read

Which columns are read of a table is decided by two loops.  A declaration adds a column unless it is
declared already, and a request adds a column unless it is chosen already; in the end each column
stands where it is mentioned first.  The primary key is put in front of either where it is not
mentioned (`withKey`).

* `Declaration.columnNames_ofCalls`: the columns of an entity, whatever calls have made it.
* `Entity.requires_projection`, `Entity.projection_some_eq_ok`: the columns read of it, and the
  reason if they are not.
* `Registry.keyed_shape`: so the key that records are told apart by is always read.

The main statement is `projects_ofCalls`.
-/

namespace RowGraph

/-! ### First mentions -/

theorem eraseDups_cons_of_not_mem {n : String} {names : List String} (h : n ∉ names) :
    (n :: names).eraseDups = n :: names.eraseDups := by
  have hfilter : names.filter (fun m => !m == n) = names := by
    refine List.filter_eq_self.mpr fun m hm => ?_
    have hne : m ≠ n := fun he => h (he ▸ hm)
    simp [hne]
  rw [List.eraseDups_cons, hfilter]

theorem eraseDups_of_nodup {names : List String} (h : names.Nodup) : names.eraseDups = names := by
  induction names with
  | nil => rfl
  | cons n names ih =>
      obtain ⟨hn, hns⟩ := List.nodup_cons.mp h
      rw [eraseDups_cons_of_not_mem hn, ih hns]

/-- A name that is added unless it is there is mentioned, once or again. -/
theorem eraseDups_add_append (names : List String) (n : String) (rest : List String) :
    ((if n ∈ names then names else names ++ [n]) ++ rest).eraseDups =
      (names ++ n :: rest).eraseDups := by
  by_cases hn : n ∈ names
  · have hrest : (n :: rest).removeAll names = rest.removeAll names := by
      simp [List.cons_removeAll, hn]
    rw [if_pos hn, List.eraseDups_append, List.eraseDups_append, hrest]
  · rw [if_neg hn, List.append_assoc, List.singleton_append]

/-- The names, behind the key if it is not among them. -/
def withKey (key : String) (names : List String) : List String :=
  if key ∈ names then names else key :: names

theorem mem_withKey {key n : String} {names : List String} :
    n ∈ withKey key names ↔ n = key ∨ n ∈ names := by
  unfold withKey
  split
  case isTrue hk =>
      constructor
      · exact .inr
      · rintro (rfl | hn)
        · exact hk
        · exact hn
  case isFalse => exact List.mem_cons

/-! ### Columns that are declared -/

namespace Declaration

/-- The column that a call declares. -/
def Call.column? : Call → Option String
  | .column name _ => some name
  | .table _ | .primaryKey _ => none

/-- The columns that calls declare, as often as they do. -/
def declared (calls : List Call) : List String := calls.filterMap Call.column?

theorem map_name_foldl_call (d : Declaration) (calls : List Call) :
    (calls.foldl call d).columns.map (·.name) =
      (d.columns.map (·.name) ++ declared calls).eraseDups := by
  induction calls generalizing d with
  | nil =>
      rw [List.foldl_nil, declared, List.filterMap_nil, List.append_nil,
        eraseDups_of_nodup d.nodup]
  | cons c calls ih =>
      rw [List.foldl_cons, ih]
      cases c with
      | table name => rfl
      | primaryKey column => rfl
      | column name type =>
          have hcolumns : (d.call (.column name type)).columns =
              upsert (·.name) ⟨name, type⟩ d.columns := rfl
          rw [hcolumns, map_key_upsert, eraseDups_add_append]
          rfl

theorem columnNames_entity (d : Declaration) :
    d.entity.columnNames = withKey d.primaryKey (d.columns.map (·.name)) :=
  d.map_name_allColumns

/-- **The columns of an entity** are those its calls declare, each where it is first declared. -/
theorem columnNames_ofCalls (name : String) (calls : List Call) :
    (ofCalls name calls).entity.columnNames =
      withKey (ofCalls name calls).primaryKey (declared calls).eraseDups := by
  have hnames := map_name_foldl_call (.start name) calls
  rw [columnNames_entity]
  exact congrArg (withKey _) hnames

end Declaration

/-! ### Columns that are requested -/

namespace Entity

/-- The column is declared. -/
def declares (e : Entity) (column : String) : Requirement :=
  ⟨column ∈ e.columnNames, .unknownAttribute e.name column⟩

theorem requires_choose (e : Entity) (chosen requested : List String) :
    Requires (e.choose chosen requested) (requested.map e.declares) := by
  induction requested generalizing chosen with
  | nil => exact requires_ok chosen
  | cons c requested ih =>
      refine requires_cons.mpr ⟨fun hc => ?_, fun hc => ?_⟩
      · rw [choose, if_pos (hasColumn_iff.mpr hc)]
        exact ih _
      · rw [choose, if_neg (hasColumn_iff.not.mpr hc)]
        rfl

/-- Each column is chosen where it is first mentioned. -/
theorem eq_eraseDups_of_choose {e : Entity} {chosen requested columns : List String}
    (h : e.choose chosen requested = .ok columns) (hn : chosen.Nodup) :
    columns = (chosen ++ requested).eraseDups := by
  induction requested generalizing chosen with
  | nil =>
      rw [List.append_nil, eraseDups_of_nodup hn]
      exact (Except.ok.inj h).symm
  | cons c requested ih =>
      rw [choose] at h
      split at h
      case isFalse => cases h
      case isTrue =>
          simp only [List.contains_iff_mem] at h
          rw [← eraseDups_add_append]
          exact ih h (nodup_add hn c)

/-- Columns are read exactly if all that are requested are declared.  If they are not, the first of
them is the reason. -/
theorem requires_projection (e : Entity) (requested : Option (List String)) :
    Requires (e.projection requested) ((requested.getD []).map e.declares) := by
  cases requested with
  | none => exact requires_ok _
  | some requested => exact e.requires_choose _ requested

/-- **The columns read of an entity** are those requested, each where it is first requested. -/
theorem projection_some_eq_ok {e : Entity} {requested columns : List String}
    (h : e.projection (some requested) = .ok columns) :
    columns = withKey e.primaryKey requested.eraseDups := by
  rw [projection] at h
  rw [withKey]
  by_cases hk : e.primaryKey ∈ requested
  · rw [if_pos (List.contains_iff_mem.mpr hk)] at h
    rw [if_pos (List.mem_eraseDups.mpr hk), eq_eraseDups_of_choose h List.nodup_nil,
      List.nil_append]
  · rw [if_neg (by simpa using hk)] at h
    rw [if_neg (List.mem_eraseDups.not.mpr hk), eq_eraseDups_of_choose h (List.nodup_singleton _),
      List.singleton_append, eraseDups_cons_of_not_mem hk]

/-- What is read of an entity whose calls declare these columns. -/
structure Projects (e : Entity) (declared : List String) : Prop where
  columns : e.columnNames = withKey e.primaryKey declared.eraseDups
  /-- Without a request all columns are read. -/
  all : e.projection none = .ok e.columnNames
  /-- A request is refused for the first column that is not declared. -/
  requires : ∀ requested, Requires (e.projection (some requested)) (requested.map e.declares)
  chosen : ∀ requested columns, e.projection (some requested) = .ok columns →
    columns = withKey e.primaryKey requested.eraseDups
  /-- Different columns of the entity, with the key and all that are requested among them. -/
  sound : ∀ requested columns, e.projection requested = .ok columns →
    columns.Nodup ∧ (∀ c ∈ columns, c ∈ e.columnNames) ∧ columns.count e.primaryKey = 1 ∧
      ∀ c ∈ requested.getD [], c ∈ columns

theorem sound_projection {e : Entity} {requested : Option (List String)}
    {columns : List String} (h : e.projection requested = .ok columns) :
    columns.Nodup ∧ (∀ c ∈ columns, c ∈ e.columnNames) ∧ columns.count e.primaryKey = 1 ∧
      ∀ c ∈ requested.getD [], c ∈ columns := by
  obtain ⟨hn, hk⟩ := keyed_projection h
  refine ⟨hn, mem_columnNames_of_projection h, List.count_eq_one_of_mem hn hk, fun c hc => ?_⟩
  cases requested with
  | none => cases hc
  | some requested =>
      rw [projection_some_eq_ok h, mem_withKey, List.mem_eraseDups]
      exact .inr hc

end Entity

/-! ### Shapes -/

namespace Registry

variable {r : Registry} {host : Entity}

theorem keyed_includeShapes {used : List String} {is : List Include}
    {shapes : List IncludeShape} (h : r.includeShapes host used is = .ok shapes) :
    ∀ i ∈ shapes, i.table.Keyed := by
  induction is generalizing used shapes with
  | nil =>
      cases h
      exact fun _ hi => absurd hi List.not_mem_nil
  | cons i is ih =>
      obtain ⟨a, target, columns, used', rest, hf, hc, hrest, rfl⟩ := includeShapes_cons_eq_ok h
      obtain ⟨hn, hk⟩ := Entity.keyed_projection hc
      exact List.forall_mem_cons.mpr ⟨⟨hn, hk⟩, ih hrest⟩

/-- **The key of every table is read**, once, whatever else is requested of it. -/
theorem keyed_shape {columns : Option (List String)} {is : List Include} {s : Shape}
    (h : r.shape host columns is = .ok s) : ∀ t ∈ s.tables, t.Keyed := by
  obtain ⟨chosen, hc, h⟩ := bind_eq_ok h
  obtain ⟨shapes, hs, h⟩ := bind_eq_ok h
  cases h
  obtain ⟨hn, hk⟩ := Entity.keyed_projection hc
  exact List.forall_mem_cons.mpr ⟨⟨hn, hk⟩, List.forall_mem_map.mpr (keyed_includeShapes hs)⟩

end Registry

/-- **The columns that are read are right for every request.**  Of an entity, whatever calls have
made it, a request is refused for the first column that is not declared; otherwise each of its
columns is read where it is first requested, behind the primary key if that is not among them.  So
the records of every table have their key. -/
theorem projects_ofCalls (name : String) (calls : List Declaration.Call) :
    (Declaration.ofCalls name calls).entity.Projects (Declaration.declared calls) ∧
      ∀ (r : Registry) (host : Entity) (columns : Option (List String)) (is : List Include)
        (s : Shape), r.shape host columns is = .ok s →
        ∀ t ∈ s.tables, t.columns.count t.primaryKey = 1 ∧
          ∀ row : Row, (t.primaryKey, row.get t.keyLabel) ∈ t.project row := by
  refine ⟨⟨Declaration.columnNames_ofCalls name calls, rfl, fun requested => ?_, ?_, ?_⟩, ?_⟩
  · exact Entity.requires_projection _ (some requested)
  · exact fun _ _ => Entity.projection_some_eq_ok
  · exact fun _ _ => Entity.sound_projection
  · intro r host columns is s hs t ht
    have hk := Registry.keyed_shape hs t ht
    exact ⟨List.count_eq_one_of_mem hk.nodup hk.key_mem, fun row => List.mem_map_of_mem hk.key_mem⟩

/-- A tag that is declared twice, and whose key is not declared. -/
def tagCalls : List Declaration.Call :=
  [.column "label" .string, .primaryKey "slug", .column "size" .int64, .column "label" .json]

/-- It has three columns, of which two or all are read, and no others. -/
theorem projects_ofCalls_tag :
    (Declaration.ofCalls "tag" tagCalls).entity.columnNames = ["slug", "label", "size"] ∧
      (∀ columns, (Declaration.ofCalls "tag" tagCalls).entity.projection
        (some ["size", "size"]) = .ok columns → columns = ["slug", "size"]) ∧
      (Declaration.ofCalls "tag" tagCalls).entity.projection (some ["size", "name", "id"]) =
        .error (.unknownAttribute "tag" "name") ∧
      ∃ host ∈ Registry.library.entities, ∃ s,
        Registry.library.shape host (some []) catalogue.includes = .ok s ∧
        ∀ t ∈ s.tables, t.columns.count t.primaryKey = 1 := by
  obtain ⟨hp, hshape⟩ := projects_ofCalls "tag" tagCalls
  refine ⟨hp.columns, fun columns h => hp.chosen _ _ h, ?_, ?_⟩
  · have hsize : "size" ∈ (Declaration.ofCalls "tag" tagCalls).entity.columnNames := by decide
    have hname : "name" ∉ (Declaration.ofCalls "tag" tagCalls).entity.columnNames := by decide
    exact ((hp.requires _).error_iff _).mpr
      ⟨[_], _, [_], rfl, List.forall_mem_singleton.mpr hsize, hname, rfl⟩
  · have hs : ∃ host ∈ Registry.library.entities, ∃ s,
        Registry.library.shape host (some []) catalogue.includes = .ok s :=
      ⟨_, List.mem_cons_self, _, rfl⟩
    obtain ⟨host, hm, s, hs⟩ := hs
    exact ⟨host, hm, s, hs, fun t ht => (hshape _ _ _ _ _ hs t ht).1⟩

end RowGraph
