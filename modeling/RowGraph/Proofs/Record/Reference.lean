import RowGraph.Proofs.Record.Graph
import RowGraph.Proofs.Record.Keys

/-!
# Proofs — Record — what folding comes to

`Shape.records` takes flat rows one after the other.  What it comes to can be said without taking
any: a record for the first row of each root key, with the columns of that row, and a field for
each include that is read off the rows of this key (`Shape.recordOf`).

* `Gathered.field_foldl_absorb`: an include has the first row of each of its keys, or the last row.
* `Shape.foldl_step_cons`: rows of a group's key go to that group, and the others go past it.
* `Shape.map_record_groups`: so the records of the groups are those of the first rows.

All of this holds for any shape and any flat rows, cells missing or not.
-/

namespace RowGraph

/-! ### Rows of a table in flat rows -/

namespace TableShape

/-- The flat rows in which the table has a row. -/
def present (t : TableShape) (rows : List Row) : List Row :=
  rows.filter fun row => !(row.get t.keyLabel).isNull

/-- Of these, the first of each key. -/
def firstsIn (t : TableShape) (rows : List Row) : List Row :=
  firstsBy (fun row => row.get t.keyLabel) (t.present rows)

theorem mem_present {t : TableShape} {row : Row} {rows : List Row} :
    row ∈ t.present rows ↔ row ∈ rows ∧ (row.get t.keyLabel).isNull = false := by
  rw [present, List.mem_filter, Bool.not_eq_eq_eq_not, Bool.not_true]

theorem present_cons (t : TableShape) (row : Row) (rows : List Row) :
    t.present (row :: rows) =
      if (row.get t.keyLabel).isNull then t.present rows else row :: t.present rows := by
  rw [present, List.filter_cons]
  cases (row.get t.keyLabel).isNull <;> rfl

theorem keys_firstsIn (t : TableShape) (rows : List Row) :
    (t.firstsIn rows).map (·.get t.keyLabel) = Value.distinct (rows.map (·.get t.keyLabel)) := by
  rw [firstsIn, ← firstsBy_map fun v : Value => v, Value.distinct, List.filter_map]
  rfl

/-- The table's part of a flat row, as a row of the table. -/
def part (t : TableShape) (flat : Row) : Row :=
  .ofList ((t.primaryKey :: t.columns).map fun c => (c, flat.get (t.label c)))

theorem get_part {t : TableShape} {flat : Row} {c : String} (hc : c ∈ t.primaryKey :: t.columns) :
    (t.part flat).get c = flat.get (t.label c) := by
  rw [part, Row.get, Row.get?_ofList_map fun c => flat.get (t.label c), if_pos hc, Option.getD_some]

theorem key_part (t : TableShape) (flat : Row) : t.key (t.part flat) = flat.get t.keyLabel :=
  get_part List.mem_cons_self

theorem cells_part (t : TableShape) (flat : Row) : t.cells (t.part flat) = t.project flat :=
  List.map_congr_left fun c hc => by rw [get_part (List.mem_cons_of_mem _ hc)]

end TableShape

/-! ### Includes -/

/-- The field that flat rows of one root make: the first of each key, or the last. -/
def IncludeShape.fieldOf (i : IncludeShape) (rows : List Row) : Field :=
  if i.kind.isMany then .many ((i.table.firstsIn rows).map i.table.project)
  else .one ((i.table.present rows).getLast?.map i.table.project)

namespace Gathered

/-- Taking flat rows into account is taking the parts of those that have one. -/
theorem foldl_absorb (t : TableShape) (g : Gathered) (rows : List Row) :
    rows.foldl (fun g row => g.absorb t row) g =
      (((t.present rows).map t.part).map some).foldl (take t) g := by
  induction rows generalizing g with
  | nil => rfl
  | cons row rows ih =>
      rw [List.foldl_cons, ih, absorb, TableShape.present_cons]
      cases (row.get t.keyLabel).isNull with
      | true => rfl
      | false =>
          rw [if_neg Bool.false_ne_true, if_neg Bool.false_ne_true, List.map_cons, List.map_cons,
            List.foldl_cons, take, t.key_part, t.cells_part]

theorem field_foldl_absorb (i : IncludeShape) (rows : List Row) :
    (rows.foldl (fun g row => g.absorb i.table row) (start i)).field = i.fieldOf rows := by
  have hfirsts : (i.table.firsts ((i.table.present rows).map i.table.part)).map i.table.cells =
      (i.table.firstsIn rows).map i.table.project := by
    have h := firstsBy_map i.table.key i.table.part (i.table.present rows)
    simp only [TableShape.key_part] at h
    rw [TableShape.firsts, ← firstsBy, h, List.map_map, TableShape.firstsIn]
    exact List.map_congr_left fun row _ => i.table.cells_part row
  have hlast : ((i.table.present rows).map i.table.part).getLast?.map i.table.cells =
      (i.table.present rows).getLast?.map i.table.project := by
    rw [List.getLast?_map, Option.map_map]
    exact congrArg (Option.map · _) (funext i.table.cells_part)
  rw [foldl_absorb, field_foldl_take, List.filterMap_map]
  simp only [Function.comp_def, id_eq, List.filterMap_some]
  rw [hfirsts, hlast, IncludeShape.fieldOf]

end Gathered

/-! ### Groups -/

namespace Shape

variable {s : Shape}

/-- The key of the root in a flat row. -/
abbrev rootKey (s : Shape) (row : Row) : Value := row.get s.root.keyLabel

/-- The rows with the root key of `row`. -/
def sameRoot (s : Shape) (row : Row) (rows : List Row) : List Row :=
  rows.filter fun r => (s.rootKey row).same (s.rootKey r)

/-- The record of the rows of one root key, of which `first` is the first. -/
def recordOf (s : Shape) (first : Row) (rows : List Row) : Record :=
  ⟨(s.root.project first).map (fun c => (c.1, .value c.2)) ++
    s.includes.map fun i => (i.table.aliasName, i.fieldOf rows)⟩

/-- The group of rows of one root key. -/
def groupOf (s : Shape) (first : Row) (rows : List Row) : Group :=
  rows.foldl (fun g row => g.absorb s row) (.start s (s.rootKey first) first)

theorem record_groupOf (s : Shape) (first : Row) (rows : List Row) :
    (s.groupOf first rows).record s = s.recordOf first rows := by
  have hfold (f : IncludeShape → Gathered) :
      rows.foldl (fun gs row => s.includes.zipWith (fun i x => x.absorb i.table row) gs)
          (s.includes.map f) =
        s.includes.map fun i => rows.foldl (fun g row => g.absorb i.table row) (f i) := by
    induction rows generalizing f with
    | nil => rfl
    | cons row rows ih =>
        rw [List.foldl_cons, List.zipWith_map_right, List.zipWith_self, ih]
        rfl
  rw [groupOf, foldl_absorb, Group.start, hfold, Group.record, List.zipWith_map_right,
    List.zipWith_self]
  simp only [Gathered.field_foldl_absorb]
  rfl

/-- A row of another key goes past a group. -/
theorem step_cons {g : Group} {row : Row} (h : g.key.same (s.rootKey row) = false)
    (gs : List Group) : s.step (g :: gs) row = g :: s.step gs row := by
  rw [step, step]
  split
  · rfl
  · rw [addRow, h]
    rfl

/-- A row of a group's key goes to the group. -/
theorem step_cons_of_same {g : Group} {row : Row} (hg : g.key.isNull = false)
    (h : g.key.same (s.rootKey row)) (gs : List Group) :
    s.step (g :: gs) row = g.absorb s row :: gs := by
  have hn : (s.rootKey row).isNull = false := Value.eq_of_same h ▸ hg
  rw [step, hn, if_neg Bool.false_ne_true, addRow, if_pos h]

/-- Rows of a group's key go to that group, and the others go past it. -/
theorem foldl_step_cons {g : Group} (hg : g.key.isNull = false) (gs : List Group)
    (rows : List Row) :
    rows.foldl s.step (g :: gs) =
      (rows.filter fun row => g.key.same (s.rootKey row)).foldl (fun g row => g.absorb s row) g ::
        (rows.filter fun row => !g.key.same (s.rootKey row)).foldl s.step gs := by
  induction rows generalizing g gs with
  | nil => rfl
  | cons row rows ih =>
      by_cases h : g.key.same (s.rootKey row)
      · rw [List.foldl_cons, step_cons_of_same hg h, ih (g := g.absorb s row) hg]
        simp [Group.absorb, h]
      · rw [Bool.not_eq_true] at h
        rw [List.foldl_cons, step_cons h, ih hg]
        simp [h]

theorem sameRoot_cons_self (s : Shape) (row : Row) (rows : List Row) :
    s.sameRoot row (row :: rows) = row :: s.sameRoot row rows := by
  rw [sameRoot, List.filter_cons, Value.same_refl, if_pos rfl, sameRoot]

/-- The first row makes a group of all rows of its key, and the others make the groups behind. -/
theorem groups_cons {row : Row} (hr : (s.rootKey row).isNull = false) (rows : List Row) :
    s.groups (row :: rows) =
      s.groupOf row (s.sameRoot row (row :: rows)) :: s.groups (otherThan s.rootKey row rows) := by
  have hstep : s.step [] row = [(Group.start s (s.rootKey row) row).absorb s row] := by
    rw [step, hr]
    rfl
  rw [groups, List.foldl_cons, hstep, foldl_step_cons hr, sameRoot_cons_self]
  rfl

/-- Rows of a key are left alone when another key is left out. -/
theorem sameRoot_otherThan {row a : Row} (h : (s.rootKey row).same (s.rootKey a) = false)
    (rows : List Row) :
    s.sameRoot a (otherThan s.rootKey row rows) = s.sameRoot a (row :: rows) := by
  have hne : (s.rootKey a).same (s.rootKey row) = false := by
    by_contra hs
    rw [Bool.not_eq_false] at hs
    rw [Value.eq_of_same hs, Value.same_refl] at h
    cases h
  rw [sameRoot, sameRoot, List.filter_cons, hne, if_neg Bool.false_ne_true, otherThan,
    List.filter_filter]
  refine List.filter_congr fun r _ => ?_
  by_cases hr : (s.rootKey a).same (s.rootKey r)
  · rw [← Value.eq_of_same hr, h, Bool.not_false, Bool.and_true]
  · rw [Bool.not_eq_true] at hr
    rw [hr, Bool.false_and]

theorem groups_of_nonnull {rows : List Row} (h : ∀ row ∈ rows, (s.rootKey row).isNull = false) :
    s.groups rows =
      (firstsBy s.rootKey rows).map fun first => s.groupOf first (s.sameRoot first rows) := by
  induction rows using firstsBy_induction s.rootKey with
  | nil => rfl
  | cons row rows ih =>
      rw [groups_cons (h row List.mem_cons_self), firstsBy_cons, List.map_cons,
        ih fun r hr => h r (List.mem_cons_of_mem row (mem_otherThan.mp hr).1)]
      refine congrArg (_ :: ·) (List.map_congr_left fun first hf => ?_)
      rw [sameRoot_otherThan (mem_otherThan.mp (mem_of_mem_firstsBy hf)).2]

/-- Rows without a root belong to no group. -/
theorem groups_present (s : Shape) (rows : List Row) :
    s.groups (s.root.present rows) = s.groups rows := by
  rw [groups, TableShape.present, List.foldl_filter, groups]
  refine List.foldl_ext _ _ _ fun gs row _ => ?_
  rw [step]
  cases (row.get s.root.keyLabel).isNull <;> rfl

/-- A first row of a key is the first among the rows of its key. -/
theorem head?_sameRoot {first : Row} {rows : List Row} (h : first ∈ firstsBy s.rootKey rows) :
    (s.sameRoot first rows).head? = some first := by
  induction rows using firstsBy_induction s.rootKey with
  | nil => cases h
  | cons row rows ih =>
      rw [firstsBy_cons] at h
      rcases List.mem_cons.mp h with rfl | h
      · rw [sameRoot_cons_self, List.head?_cons]
      · rw [← sameRoot_otherThan (mem_otherThan.mp (mem_of_mem_firstsBy h)).2]
        exact ih h

/-- Rows of one root key make one group. -/
theorem groups_sameRoot {first : Row} {rows : List Row} (hn : (s.rootKey first).isNull = false)
    (h : (s.sameRoot first rows).head? = some first) :
    s.groups (s.sameRoot first rows) = [s.groupOf first (s.sameRoot first rows)] := by
  obtain ⟨rest, hrest⟩ := List.head?_eq_some_iff.mp h
  have hsame : s.sameRoot first (s.sameRoot first rows) = s.sameRoot first rows := by
    simp [sameRoot]
  have hnone : otherThan s.rootKey first rest = [] := by
    refine List.filter_eq_nil_iff.mpr fun r hr => ?_
    have hm : r ∈ s.sameRoot first rows := hrest ▸ List.mem_cons_of_mem first hr
    simp [(List.mem_filter.mp hm).2]
  rw [hrest] at hsame ⊢
  rw [groups_cons hn, hsame, hnone]
  rfl

/-- Rows without a root have the key of no row that has one. -/
theorem sameRoot_present {row : Row} (h : (s.rootKey row).isNull = false) (rows : List Row) :
    s.sameRoot row (s.root.present rows) = s.sameRoot row rows := by
  rw [sameRoot, TableShape.present, List.filter_filter, sameRoot]
  refine List.filter_congr fun r _ => ?_
  by_cases hr : (s.rootKey row).same (s.rootKey r)
  · have hn : (s.rootKey r).isNull = false := Value.eq_of_same hr ▸ h
    rw [hr, hn, Bool.not_false, Bool.and_true]
  · rw [Bool.not_eq_true] at hr
    rw [hr, Bool.false_and]

theorem rootKey_of_mem_firstsIn {first : Row} {rows : List Row}
    (h : first ∈ s.root.firstsIn rows) : (s.rootKey first).isNull = false :=
  (TableShape.mem_present.mp (mem_of_mem_firstsBy h)).2

theorem head?_sameRoot_of_mem_firstsIn {first : Row} {rows : List Row}
    (h : first ∈ s.root.firstsIn rows) : (s.sameRoot first rows).head? = some first := by
  have hfirst := head?_sameRoot h
  rwa [sameRoot_present (rootKey_of_mem_firstsIn h)] at hfirst

/-- **What folding comes to**: a record for the first row of each root key. -/
theorem map_record_groups (s : Shape) (rows : List Row) :
    (s.groups rows).map (Group.record s) =
      (s.root.firstsIn rows).map fun first => s.recordOf first (s.sameRoot first rows) := by
  have hn : ∀ row ∈ s.root.present rows, (s.rootKey row).isNull = false :=
    fun row hr => (TableShape.mem_present.mp hr).2
  rw [← groups_present, groups_of_nonnull hn, List.map_map]
  refine List.map_congr_left fun first hf => ?_
  rw [Function.comp_apply, record_groupOf, sameRoot_present (rootKey_of_mem_firstsIn hf)]

end Shape

end RowGraph
