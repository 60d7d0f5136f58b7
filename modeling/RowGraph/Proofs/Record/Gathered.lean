import RowGraph.Proofs.Record.Firsts
import RowGraph.Record.Fold

/-!
# Proofs — Record — what an include gathers

An include takes rows of its table one after the other, or nothing where there is none
(`Gathered.take`).  Many rows are told apart by their keys: a key that is there already is not
taken again, and since keys are compared by identity each row is there once it is taken.  Of rows
that lead to one, the last stays.

* `Gathered.foldl_take_idem`: taking rows a second time changes nothing.
* `Gathered.field_foldl_take`: the field in the end has the first row of each key in the order they
  came, or the last row.
* `TableShape.once_firsts`: where a key says which row it is, the first rows of each key are all of
  them, each once and in the order in which they are first met.
-/

namespace RowGraph

namespace TableShape

/-- The columns read of a row of the table. -/
def cells (t : TableShape) (row : Row) : Cells := t.columns.map fun c => (c, row.get c)

def key (t : TableShape) (row : Row) : Value := row.get t.primaryKey

/-- The first row of each key. -/
def firsts (t : TableShape) (rows : List Row) : List Row :=
  rows.eraseDupsBy fun a b => (t.key b).same (t.key a)

/-- The rows with another key. -/
def without (t : TableShape) (row : Row) (rows : List Row) : List Row :=
  rows.filter fun r => !(t.key row).same (t.key r)

theorem firsts_cons (t : TableShape) (row : Row) (rows : List Row) :
    t.firsts (row :: rows) = row :: t.firsts (t.without row rows) :=
  firstsBy_cons t.key row rows

theorem mem_without {t : TableShape} {row a : Row} {rows : List Row} :
    a ∈ t.without row rows ↔ a ∈ rows ∧ (t.key row).same (t.key a) = false :=
  mem_otherThan

/-- The induction that goes with `firsts_cons`. -/
theorem firsts_induction (t : TableShape) {motive : List Row → Prop} (nil : motive [])
    (cons : ∀ row rows, motive (t.without row rows) → motive (row :: rows)) :
    ∀ rows, motive rows :=
  firstsBy_induction t.key nil cons

theorem mem_of_mem_firsts {t : TableShape} {a : Row} {rows : List Row} (h : a ∈ t.firsts rows) :
    a ∈ rows :=
  mem_of_mem_firstsBy h

/-- Every key is that of a first row. -/
theorem exists_mem_firsts {t : TableShape} {a : Row} {rows : List Row} (h : a ∈ rows) :
    ∃ b ∈ t.firsts rows, (t.key b).same (t.key a) :=
  exists_mem_firstsBy h

theorem pairwise_firsts (t : TableShape) (rows : List Row) :
    (t.firsts rows).Pairwise fun a b => (t.key a).same (t.key b) = false :=
  pairwise_firstsBy t.key rows

/-- Where a first row stands, those behind it have not been met yet. -/
theorem pairwise_firsts_order (t : TableShape) (rows : List Row) :
    (t.firsts rows).Pairwise fun a b => ∃ l₁ l₂, rows = l₁ ++ a :: l₂ ∧ b ∉ l₁ := by
  induction rows using firsts_induction t with
  | nil => exact .nil
  | cons row rows ih =>
      rw [firsts_cons]
      refine List.pairwise_cons.mpr ⟨fun b _ => ⟨[], rows, rfl, List.not_mem_nil⟩, ?_⟩
      refine ih.imp_of_mem fun {a b} _ hb => ?_
      rintro ⟨l₁, l₂, hw, hbl⟩
      -- what is met first among the rows of other keys is met first among all rows
      obtain ⟨m₁, m', rfl, rfl, hm'⟩ := List.filter_eq_append_iff.mp hw
      obtain ⟨n₁, n₂, rfl, hn, -, -⟩ := List.filter_eq_cons_iff.mp hm'
      obtain ⟨-, hk⟩ := mem_without.mp (mem_of_mem_firsts hb)
      have hbr : b ≠ row := by
        rintro rfl
        rw [Value.same_refl] at hk
        cases hk
      have hbm : b ∉ m₁ := fun h => hbl (mem_without.mpr ⟨h, hk⟩)
      have hbn : b ∉ n₁ := fun h => hn b h (by simp [hk])
      refine ⟨row :: (m₁ ++ n₁), n₂, by simp, ?_⟩
      simp [hbr, hbm, hbn]

/-- `ms` has each of the rows once, in the order in which they are first met. -/
structure Once (t : TableShape) (rows ms : List Row) : Prop where
  mem_iff : ∀ row, row ∈ ms ↔ row ∈ rows
  keys : ms.Pairwise fun a b => (t.key a).same (t.key b) = false
  order : ms.Pairwise fun a b => ∃ l₁ l₂, rows = l₁ ++ a :: l₂ ∧ b ∉ l₁

/-- The first rows are all rows, if a key says which row it is. -/
theorem once_firsts {t : TableShape} {rows : List Row}
    (h : ∀ a ∈ rows, ∀ b ∈ rows, (t.key a).same (t.key b) → a = b) :
    t.Once rows (t.firsts rows) where
  mem_iff row := by
    refine ⟨mem_of_mem_firsts, fun hr => ?_⟩
    obtain ⟨b, hb, hk⟩ := exists_mem_firsts hr
    exact h b (mem_of_mem_firsts hb) row hr hk ▸ hb
  keys := pairwise_firsts t rows
  order := pairwise_firsts_order t rows

end TableShape

namespace Gathered

/-- Takes a row of the include's table into account, if there is one. -/
def take (t : TableShape) (g : Gathered) : Option Row → Gathered
  | none => g
  | some row => g.add (t.key row) (t.cells row)

theorem foldl_take (t : TableShape) (g : Gathered) (os : List (Option Row)) :
    os.foldl (take t) g = (os.filterMap id).foldl (fun g row => take t g (some row)) g := by
  induction os generalizing g with
  | nil => rfl
  | cons o os ih =>
      rcases o with _ | row
      · exact ih g
      · exact ih (take t g (some row))

/-! ### One row -/

theorem foldl_take_one (t : TableShape) (r : Option Cells) (rows : List Row) :
    rows.foldl (fun g row => take t g (some row)) (.one r) =
      .one ((rows.getLast?.map t.cells).or r) := by
  induction rows generalizing r with
  | nil => rfl
  | cons row rows ih =>
      rw [List.foldl_cons]
      refine (ih (some (t.cells row))).trans ?_
      rw [List.getLast?_cons]
      rcases rows.getLast? with _ | last
      · rfl
      · rfl

/-! ### Many rows -/

/-- The rows gathered, with one more. -/
def insertRow (t : TableShape) (gs : List (Value × Cells)) (row : Row) : List (Value × Cells) :=
  if gs.any (·.1.same (t.key row)) then gs else gs ++ [(t.key row, t.cells row)]

theorem foldl_take_many (t : TableShape) (gs : List (Value × Cells)) (rows : List Row) :
    rows.foldl (fun g row => take t g (some row)) (.many gs) =
      .many (rows.foldl (insertRow t) gs) := by
  induction rows generalizing gs with
  | nil => rfl
  | cons row rows ih =>
      have h : take t (.many gs) (some row) = .many (insertRow t gs row) := by
        rw [take, add, insertRow]
        split <;> rfl
      rw [List.foldl_cons, h, ih, List.foldl_cons]

theorem any_insertRow {t : TableShape} {gs : List (Value × Cells)} {row : Row} {v : Value} :
    (insertRow t gs row).any (·.1.same v) ↔
      gs.any (·.1.same v) ∨ ¬ gs.any (·.1.same (t.key row)) ∧ (t.key row).same v := by
  unfold insertRow
  split
  case isTrue h => simp [h]
  case isFalse h => simp [List.any_append, h]

theorem any_foldl_insertRow {t : TableShape} {gs : List (Value × Cells)} {rows : List Row}
    {v : Value} (h : gs.any (·.1.same v)) : (rows.foldl (insertRow t) gs).any (·.1.same v) := by
  induction rows generalizing gs with
  | nil => exact h
  | cons row rows ih => exact ih (any_insertRow.mpr (.inl h))

/-- A row that was taken is there. -/
theorem any_of_mem {t : TableShape} {gs : List (Value × Cells)} {rows : List Row} {row : Row}
    (h : row ∈ rows) : (rows.foldl (insertRow t) gs).any (·.1.same (t.key row)) := by
  induction rows generalizing gs with
  | nil => cases h
  | cons row' rows ih =>
      rcases List.mem_cons.mp h with rfl | h
      · rw [List.foldl_cons]
        refine any_foldl_insertRow (any_insertRow.mpr ?_)
        by_cases hs : gs.any (·.1.same (t.key row))
        · exact .inl hs
        · exact .inr ⟨hs, Value.same_refl _⟩
      · exact ih h

/-- Rows that are there already are not taken again. -/
theorem foldl_insertRow_of_any {t : TableShape} {gs : List (Value × Cells)} {rows : List Row}
    (h : ∀ row ∈ rows, gs.any (·.1.same (t.key row))) : rows.foldl (insertRow t) gs = gs := by
  induction rows with
  | nil => rfl
  | cons row rows ih =>
      rw [List.foldl_cons, insertRow, if_pos (h row List.mem_cons_self)]
      exact ih fun r hr => h r (List.mem_cons_of_mem row hr)

theorem foldl_insertRow (t : TableShape) (gs : List (Value × Cells)) (rows : List Row) :
    rows.foldl (insertRow t) gs =
      gs ++ (t.firsts (rows.filter fun row => !gs.any (·.1.same (t.key row)))).map
        fun row => (t.key row, t.cells row) := by
  induction rows generalizing gs with
  | nil => simp [TableShape.firsts]
  | cons row rows ih =>
      rw [List.foldl_cons, ih, insertRow]
      by_cases h : gs.any (·.1.same (t.key row))
      · simp [h]
      · simp [h, TableShape.firsts_cons, TableShape.without, List.filter_filter, Bool.and_comm]

/-! ### The field -/

/-- Taking rows a second time changes nothing. -/
theorem foldl_take_idem (t : TableShape) (g : Gathered) (os : List (Option Row)) :
    os.foldl (take t) (os.foldl (take t) g) = os.foldl (take t) g := by
  simp only [foldl_take]
  rcases g with r | gs
  · rw [foldl_take_one, foldl_take_one]
    rcases (os.filterMap id).getLast? with _ | last <;> rfl
  · rw [foldl_take_many, foldl_take_many]
    exact congrArg many (foldl_insertRow_of_any fun row h => any_of_mem h)

/-- The field of an include that has taken rows: the first of each key, or the last. -/
theorem field_foldl_take (i : IncludeShape) (os : List (Option Row)) :
    (os.foldl (take i.table) (start i)).field =
      if i.kind.isMany then .many ((i.table.firsts (os.filterMap id)).map i.table.cells)
      else .one ((os.filterMap id).getLast?.map i.table.cells) := by
  rw [foldl_take, start]
  by_cases h : i.kind.isMany
  · rw [if_pos h, if_pos h, foldl_take_many, foldl_insertRow, field]
    simp
  · rw [if_neg h, if_neg h, foldl_take_one, field, Option.or_none]

end Gathered

end RowGraph
