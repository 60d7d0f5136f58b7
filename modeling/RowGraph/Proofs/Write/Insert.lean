import RowGraph.Proofs.Parameters
import RowGraph.Proofs.Requirement
import RowGraph.Proofs.Sql.Parts

/-!
# Proofs — Write — inserts lose nothing

An insert requires that every cell of every row is a column, and that there is a cell at all
(`Registry.requires_insert`).  What it says is read off its text (`InsertText.read`): the columns in
the parentheses behind the table, and behind `VALUES` the tuples of placeholders.

**Every cell of every row is in the statement, in one place** (`insert_loses_nothing`): the columns
are those some row supplies, there is a tuple for each row, and the placeholder of a row and a
column is bound to the value the row has there, or to null.
-/

namespace RowGraph

open Sql Fragment

/-! ### What is required -/

/-- Every cell of a row is a column of the entity of this name. -/
def Requirement.cells (r : Registry) (name : String) (row : Row) : List Requirement :=
  row.names.map (.declared r name)

/-- What an insert requires, in this order. -/
def Registry.insertRequirements (r : Registry) (name : String) (rows : List Row) :
    List Requirement :=
  .defined r name :: (rows.flatMap (Requirement.cells r name) ++
    [⟨∃ row ∈ rows, row.names ≠ [], .noValues name⟩])

namespace Registry

variable {r : Registry} {name : String} {e : Entity} {rows : List Row}

theorem requires_requireCells (he : r.get? name = some e) (row : Row) :
    Requires (e.requireCells row) (Requirement.cells r name row) := by
  unfold Entity.requireCells Requirement.cells
  induction row.names with
  | nil => exact requires_ok ()
  | cons c cs ih =>
      rw [List.map_cons, Requirement.declared_eq he]
      refine requires_cons.mpr ⟨fun hc => ?_, fun hc => ?_⟩
      · rw [List.find?_cons_of_neg (by simpa using Entity.hasColumn_iff.mpr hc)]
        exact ih
      · rw [List.find?_cons_of_pos (by simpa using Entity.hasColumn_iff.not.mpr hc)]

/-- The columns of an insert are those some row supplies. -/
theorem mem_supplied (hcells : ∀ row ∈ rows, ∀ c ∈ row.names, c ∈ e.columnNames) {c : String} :
    c ∈ e.columnNames.filter (fun c => rows.any (·.contains c)) ↔
      ∃ row ∈ rows, c ∈ row.names := by
  simp only [List.mem_filter, List.any_eq_true, Row.contains_iff]
  exact ⟨fun h => h.2, fun ⟨row, hrow, hc⟩ => ⟨hcells row hrow c hc, row, hrow, hc⟩⟩

theorem supplied_ne_nil (hcells : ∀ row ∈ rows, ∀ c ∈ row.names, c ∈ e.columnNames) :
    e.columnNames.filter (fun c => rows.any (·.contains c)) ≠ [] ↔
      ∃ row ∈ rows, row.names ≠ [] := by
  constructor
  · intro h
    obtain ⟨c, hc⟩ := List.exists_mem_of_ne_nil _ h
    obtain ⟨row, hrow, hc⟩ := (mem_supplied hcells).mp hc
    exact ⟨row, hrow, List.ne_nil_of_mem hc⟩
  · rintro ⟨row, hrow, h⟩
    obtain ⟨c, hc⟩ := List.exists_mem_of_ne_nil _ h
    exact List.ne_nil_of_mem ((mem_supplied hcells).mpr ⟨row, hrow, hc⟩)

theorem requires_insert (r : Registry) (name : String) (rows : List Row) :
    Requires (r.insert name rows) (r.insertRequirements name rows) := by
  refine (r.requires_entity name).bind fun e he => ?_
  have he := entity_eq_ok he
  refine (requires_forM fun row _ => requires_requireCells he row).bind fun _ hcells => ?_
  have hsupplied := supplied_ne_nil (forM_requireCells_eq_ok hcells)
  refine requires_cons.mpr ⟨fun h => ?_, fun h => ?_⟩
  · dsimp only
    rw [if_neg (List.isEmpty_iff.not.mpr (hsupplied.mpr h))]
    exact requires_ok _
  · dsimp only
    rw [if_pos (List.isEmpty_iff.mpr (not_not.mp (hsupplied.not.mpr h))), name_of_get? he]
    rfl

end Registry

/-! ### What is read -/

/-- An insert as it is read: for each tuple the names of its placeholders. -/
structure InsertText where
  table : String
  columns : List String
  tuples : List (List String)
  deriving DecidableEq, Repr

namespace InsertText

def read (sql : String) : Option InsertText := do
  let ls ← Lexeme.read sql
  match ← Lexeme.parts (.word "VALUES") ls with
  | [.word "INSERT" :: .word "INTO" :: .ident table :: columns, tuples] => do
      let cs ← Lexeme.list? Lexeme.ident? columns
      let ts ← Lexeme.parts (.mark .comma) tuples
      let ns ← ts.mapM (Lexeme.list? Lexeme.param?)
      return ⟨table, cs, ns⟩
  | _ => none

/-- The placeholder of a row and a column. -/
def placeholder? (t : InsertText) (i j : Nat) : Option String := t.tuples[i]?.bind (·[j]?)

end InsertText

/-- Every cell of the rows has its place, and every place its value: `ps` are the parameters. -/
structure InsertText.Holds (t : InsertText) (ps : Params) (e : Entity) (rows : List Row) :
    Prop where
  /-- The columns stand in the order of their declaration. -/
  ordered : t.columns.Sublist e.columnNames
  distinct : t.columns.Nodup
  supplied : ∀ c, c ∈ t.columns ↔ ∃ row ∈ rows, c ∈ row.names
  /-- There is a tuple for each row, and in it a placeholder for each column. -/
  bound : List.Forall₂ (fun row tuple =>
    List.Forall₂ (fun c p => ps.get? p = some (row.get c)) t.columns tuple) rows t.tuples
  /-- No placeholder stands twice, and no other parameter is bound. -/
  placeholders : t.tuples.flatten.Nodup ∧ t.tuples.flatten = ps.map (·.1)

namespace Insert

/-! ### Reading it back -/

/-- Placeholders numbered from place `n` on are bound to the values. -/
theorem forall₂_numbered {ps : Params} {n : Nat} {vs : List Value} (h : ps.Binds n vs) :
    List.Forall₂ (fun v p => ps.get? p = some v) vs ((Params.numbered n vs).map (·.1)) := by
  induction vs generalizing n with
  | nil => exact .nil
  | cons v vs ih => exact .cons h.head (ih h.tail)

theorem read_tuples {ps : Params} {rows : List (List Value)} {n : Nat}
    (hne : ∀ vs ∈ rows, vs ≠ []) (hb : ps.Binds n rows.flatten) :
    ∃ ts, ((tuples rows n).map Fragment.lexemes).mapM (Lexeme.list? Lexeme.param?) = some ts ∧
      List.Forall₂ (List.Forall₂ fun v p => ps.get? p = some v) rows ts ∧
        ts.flatten = (Params.numbered n rows.flatten).map (·.1) := by
  induction rows generalizing n with
  | nil => exact ⟨[], rfl, .nil, rfl⟩
  | cons vs rows ih =>
      obtain ⟨hvs, hrows⟩ := List.forall_mem_cons.mp hne
      have hfs : paramsFrom n vs ≠ [] := by
        cases vs with
        | nil => exact absurd rfl hvs
        | cons v vs => exact List.cons_ne_nil _ _
      obtain ⟨ts, hread, hbound, hnames⟩ := ih hrows hb.right
      refine ⟨(Params.numbered n vs).map (·.1) :: ts, ?_,
        .cons (forall₂_numbered hb.left) hbound, ?_⟩
      · rw [tuples, List.map_cons, List.mapM_cons, hread,
          Lexeme.list?_parens (fun _ => rfl) hfs (Lexeme.items_paramsFrom n vs)]
        rfl
      · rw [List.flatten_cons, List.flatten_cons, Params.numbered_append, List.map_append, hnames]

theorem whole_tuples {rows : List (List Value)} {n : Nat} :
    ∀ f ∈ tuples rows n, ∀ sep : Lexeme, sep.Flat → Lexeme.Whole sep 0 f.lexemes := by
  induction rows generalizing n with
  | nil => exact fun _ hf => absurd hf List.not_mem_nil
  | cons vs rows ih =>
      refine List.forall_mem_cons.mpr ⟨fun sep hsep => ?_, ih⟩
      exact Lexeme.whole_list (fun _ => rfl) (Lexeme.items_paramsFrom n vs) hsep

/-- The text falls into what stands in front of `VALUES` and the tuples. -/
theorem parts_values (i : Insert) : Lexeme.parts (.word "VALUES") i.fragment.lexemes =
    some [.word "INSERT" :: .word "INTO" :: .ident i.table ::
        (Fragment.parens (.commas (i.columns.map Fragment.ident))).lexemes,
      (Fragment.commas (tuples i.rows 0)).lexemes] := by
  have hvalues : (Lexeme.word "VALUES").Flat := fun _ => rfl
  have hcolumns : Lexeme.Whole (.word "VALUES") 0
      (Fragment.parens (.commas (i.columns.map Fragment.ident))).lexemes :=
    Lexeme.whole_list (fun _ => rfl) (Lexeme.items_idents i.columns) hvalues
  have hfront : Lexeme.Whole (.word "VALUES") 0
      [.word "INSERT", .word "INTO", .ident i.table] := by
    refine Lexeme.whole_of_forall ?_
    simp [Lexeme.Flat, Lexeme.nest]
  have hcomma : Lexeme.Whole (.word "VALUES") 0 Token.comma.lexemes :=
    Lexeme.whole_singleton Lexeme.flat_comma fun _ => by simp
  have hback : Lexeme.Whole (.word "VALUES") 0 (Fragment.commas (tuples i.rows 0)).lexemes :=
    Lexeme.whole_join hcomma fun f hf => whole_tuples f hf _ hvalues
  have hinsert : Token.insertInto.lexemes = [.word "INSERT", .word "INTO"] := by decide
  have hword : Token.values.lexemes = [.word "VALUES"] := by decide
  have hlexemes : i.fragment.lexemes = [.word "INSERT", .word "INTO", .ident i.table] ++
      (Fragment.parens (.commas (i.columns.map Fragment.ident))).lexemes ++
        .word "VALUES" :: (Fragment.commas (tuples i.rows 0)).lexemes := by
    simp [fragment, lexemes, token, ident, Chunk.lexemes, hinsert, hword]
  rw [hlexemes, Lexeme.parts_two hvalues (hfront.append hcolumns) hback]
  rfl

/-- An insert is read as it was planned, its placeholders bound to the values. -/
theorem read_statement {i : Insert} (hcs : i.columns ≠ []) (hrows : i.rows ≠ [])
    (hvs : ∀ vs ∈ i.rows, vs ≠ []) :
    ∃ ts, InsertText.read i.statement.sql = some ⟨i.table, i.columns, ts⟩ ∧
      List.Forall₂ (List.Forall₂ fun v p => i.statement.params.get? p = some v) i.rows ts ∧
        ts.flatten = i.statement.params.map (·.1) := by
  have hcarries := i.carries_fragment
  have hparams : i.statement.params = Params.numbered 0 i.rows.flatten := hcarries.params
  rw [hparams]
  obtain ⟨ts, hts, hbound, hnames⟩ := read_tuples hvs (Params.binds_numbered 0 i.rows.flatten)
  refine ⟨ts, ?_, hbound, hnames⟩
  have hread : Lexeme.read i.statement.sql = some i.fragment.lexemes :=
    read_text hcarries.wellNamed
  have hcolumns := Lexeme.list?_parens (fun _ => rfl) (by simpa using hcs)
    (Lexeme.items_idents i.columns)
  have htuples : Lexeme.parts (.mark .comma) (Fragment.commas (tuples i.rows 0)).lexemes =
      some ((tuples i.rows 0).map Fragment.lexemes) := by
    refine Lexeme.parts_join Lexeme.flat_comma rfl ?_ fun f hf =>
      whole_tuples f hf _ Lexeme.flat_comma
    cases h : i.rows with
    | nil => exact absurd h hrows
    | cons vs rows => exact List.cons_ne_nil _ _
  simp only [InsertText.read, hread, Option.bind_eq_bind, Option.bind_some, parts_values, hcolumns,
    htuples, hts]
  rfl

end Insert

/-! ### Nothing is lost -/

theorem getElem?_of_forall₂ {α β : Type} {R : α → β → Prop} {as : List α} {bs : List β}
    (h : List.Forall₂ R as bs) {i : Nat} {a : α} (ha : as[i]? = some a) :
    ∃ b, bs[i]? = some b ∧ R a b := by
  obtain ⟨hi, rfl⟩ := List.getElem?_eq_some_iff.mp ha
  have hi' : i < bs.length := h.length_eq ▸ hi
  exact ⟨bs[i], List.getElem?_eq_getElem hi', h.get hi hi'⟩

/-- A cell of a row has one place: the column of its name, in the tuple of its row. -/
theorem InsertText.Holds.once {t : InsertText} {ps : Params} {e : Entity} {rows : List Row}
    (h : t.Holds ps e rows) {k : Nat} {row : Row} {c : String} {v : Value}
    (hrow : rows[k]? = some row) (hc : row.get? c = some v) :
    ∃! j, t.columns[j]? = some c ∧ ∃ p, t.placeholder? k j = some p ∧ ps.get? p = some v := by
  have hmem : c ∈ t.columns := by
    refine (h.supplied c).mpr ⟨row, List.mem_of_getElem? hrow, ?_⟩
    rw [← Row.contains_iff, Row.contains, hc]
    rfl
  obtain ⟨j, hj⟩ := List.getElem?_of_mem hmem
  refine ⟨j, ⟨hj, ?_⟩, fun j' hj' => ?_⟩
  · obtain ⟨tuple, htuple, hbound⟩ := getElem?_of_forall₂ h.bound hrow
    obtain ⟨p, hp, hv⟩ := getElem?_of_forall₂ hbound hj
    refine ⟨p, ?_, ?_⟩
    · rw [placeholder?, htuple, Option.bind_some, hp]
    · rw [hv, Row.get, hc]
      rfl
  · exact (List.getElem?_inj (List.getElem?_eq_some_iff.mp hj'.1).1 h.distinct).mp
      (hj'.1.trans hj.symm)

/-- **An insert loses nothing.**  It is planned exactly if what it requires is met, and refused for
the first requirement that is not.  The text of a planned one has the columns that some row supplies
and a tuple for each row, and each cell of the rows has one place there. -/
theorem insert_loses_nothing (r : Registry) (name : String) (rows : List Row) :
    Requires (r.insert name rows) (r.insertRequirements name rows) ∧
    ∀ i, r.insert name rows = .ok i → ∃ e t, r.get? name = some e ∧
      InsertText.read i.statement.sql = some t ∧ t.table = r.home.qualify e.table ∧
      t.Holds i.statement.params e rows ∧
      ∀ k row c v, rows[k]? = some row → row.get? c = some v → ∃! j, t.columns[j]? = some c ∧
        ∃ p, t.placeholder? k j = some p ∧ i.statement.params.get? p = some v := by
  refine ⟨r.requires_insert name rows, fun i hi => ?_⟩
  obtain ⟨e, he, hcells, htable, hcolumns, hrows⟩ := Registry.insert_eq_ok hi
  have hsupplied : ∃ row ∈ rows, row.names ≠ [] :=
    (r.requires_insert name rows).ok_iff.mp ⟨i, hi⟩
      ⟨∃ row ∈ rows, row.names ≠ [], .noValues name⟩ (by simp [Registry.insertRequirements])
  have hcs : i.columns ≠ [] := by
    rw [hcolumns]
    exact (Registry.supplied_ne_nil hcells).mpr hsupplied
  obtain ⟨ts, hread, hbound, hnames⟩ : ∃ ts,
      InsertText.read i.statement.sql = some ⟨i.table, i.columns, ts⟩ ∧
      List.Forall₂ (List.Forall₂ fun v p => i.statement.params.get? p = some v) i.rows ts ∧
        ts.flatten = i.statement.params.map (·.1) := by
    obtain ⟨row, hrow, -⟩ := hsupplied
    refine Insert.read_statement hcs ?_ fun vs hvs => ?_
    · rw [hrows]
      exact List.ne_nil_of_mem (List.mem_map_of_mem hrow)
    · rw [hrows] at hvs
      obtain ⟨row, -, rfl⟩ := List.mem_map.mp hvs
      simpa using hcs
  have hholds : InsertText.Holds ⟨i.table, i.columns, ts⟩ i.statement.params e rows := {
    ordered := by
      rw [hcolumns]
      exact List.filter_sublist
    distinct := by
      rw [hcolumns]
      exact e.nodup.filter _
    supplied := fun c => by
      rw [hcolumns]
      exact Registry.mem_supplied hcells
    bound := by
      rw [hrows, List.forall₂_map_left_iff] at hbound
      exact hbound.imp fun _ _ h => List.forall₂_map_left_iff.mp h
    placeholders := by
      rw [hnames]
      exact ⟨i.carries_fragment.bindsFrom.distinct, rfl⟩ }
  exact ⟨e, _, he, hread, htable, hholds, fun k row c v => hholds.once⟩

/-- Rows of different shapes, one of them without any cell. -/
def headings : List Row :=
  [.ofList [("book_id", .int64 7), ("heading", .string "I")], .empty, .ofList [("id", .int64 3)]]

theorem insert_loses_nothing_library :
    Registry.library.Reached ∧ ∃ i, Registry.library.insert "chapter" headings = .ok i ∧
      InsertText.read i.statement.sql = some ⟨"chapter", ["id", "heading", "book_id"],
        [["param0", "param1", "param2"], ["param3", "param4", "param5"],
          ["param6", "param7", "param8"]]⟩ ∧
      ["param0", "param1", "param2"].map i.statement.params.get? =
        [some .null, some (.string "I"), some (.int64 7)] := by
  obtain ⟨-, hok⟩ := insert_loses_nothing Registry.library "chapter" headings
  obtain ⟨e, t, he, hread, -, hholds, -⟩ := hok _ rfl
  have ht : t = ⟨"chapter", ["id", "heading", "book_id"], [["param0", "param1", "param2"],
      ["param3", "param4", "param5"], ["param6", "param7", "param8"]]⟩ := by
    refine Option.some.inj (hread.symm.trans ?_)
    decide +kernel
  rw [ht] at hread hholds
  refine ⟨Registry.reached_library, _, rfl, hread, ?_⟩
  obtain ⟨hrow, -⟩ := List.forall₂_cons.mp hholds.bound
  simp only [List.forall₂_cons] at hrow
  obtain ⟨hid, hheading, hbook, -⟩ := hrow
  simp only [List.map_cons, List.map_nil, hid, hheading, hbook]
  rfl

end RowGraph
