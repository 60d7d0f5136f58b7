import RowGraph.Proofs.Parameters
import RowGraph.Proofs.Sql.Outline

/-!
# Proofs — no value reaches the text

Requests and plans are blanked like the filters in them, and a row keeps nothing but its names.
Planning goes on under blanking: a blanked request has the blanked plan, or is refused with the
same error (`Registry.select_blank` and its like).  A plan and the blanked plan are the same
without their values.  So **the outlines of statements depend on blanked requests only**
(`outlines_uniform`): requests that differ in nothing but the values they bind have the same text
and the same parameter names, or the same error.
-/

namespace RowGraph

open Sql Fragment

/-! ### Blanked requests -/

def Include.blank (i : Include) : Include := { i with filter := i.filter.map Filter.blank }

/-- The options without the values of their filters; everything else stays. -/
def FindOptions.blank (o : FindOptions) : FindOptions :=
  { o with filter := o.filter.map Filter.blank, includes := o.includes.map Include.blank }

/-- The row without its values: its names, in order. -/
def Row.blank (row : Row) : Row where
  cells := row.names.map fun n => (n, .null)
  nodup := by
    rw [List.map_map]
    exact (List.map_id row.names).symm ▸ row.nodup_names

namespace Row

@[simp] theorem names_blank (row : Row) : row.blank.names = row.names := by
  simp [blank, names, Function.comp_def]

@[simp] theorem contains_blank (row : Row) (name : String) :
    row.blank.contains name = row.contains name := by
  rw [Bool.eq_iff_iff, contains_iff, contains_iff, names_blank]

theorem get_blank (row : Row) : row.blank.get = fun _ => .null := by
  funext name
  unfold get get?
  cases h : row.blank.cells.find? (·.1 == name) with
  | none => rfl
  | some c =>
      obtain ⟨n, -, rfl⟩ := List.mem_map.mp (List.mem_of_find?_eq_some h)
      rfl

theorem blank_of_names {row row' : Row} (h : row.names = row'.names) :
    row.blank = row'.blank :=
  Row.ext (congrArg (List.map fun n => (n, Value.null)) h)

theorem map_blank_of_names {rows rows' : List Row} (h : rows.map names = rows'.map names) :
    rows.map blank = rows'.map blank := by
  have hcells : cells ∘ blank = (List.map fun n => (n, Value.null)) ∘ names := rfl
  refine List.map_injective_iff.mpr (fun _ _ => Row.ext) ?_
  rw [List.map_map, List.map_map, hcells, ← List.map_map, ← List.map_map, h]

end Row

/-! ### Blanked plans -/

def Join.blank (j : Join) : Join := { j with filter := j.filter.map Predicate.blank }

def Source.blank (s : Source) : Source :=
  { s with filter := s.filter.map Predicate.blank, joins := s.joins.map Join.blank }

def Select.blank (s : Select) : Select := { s with source := s.source.blank }

def Count.blank (c : Count) : Count := { c with source := c.source.blank }

def Insert.blank (i : Insert) : Insert :=
  { i with rows := i.rows.map fun vs => List.replicate vs.length .null }

def Update.blank (u : Update) : Update :=
  { u with assignments := u.assignments.map fun a => (a.1, .null), filter := u.filter.blank }

def Delete.blank (d : Delete) : Delete := { d with filter := d.filter.blank }

/-! ### Planning under blanking -/

namespace Filter

theorem predicate?_blank (f : Option Filter) :
    predicate? (f.map blank) = (predicate? f).map (Option.map Predicate.blank) := by
  rcases f with _ | _ | ⟨e, f⟩
  · rfl
  · rfl
  · have hp := predicate_blank (e :: f)
    obtain ⟨key, node⟩ := e
    simp only [blank] at hp
    simp [predicate?, blank, hp]

theorem predicateOrAll_blank (f : Option Filter) :
    predicateOrAll (f.map blank) = Predicate.blank <$> predicateOrAll f := by
  cases f with
  | none => rfl
  | some f => exact congrArg Draw.result (predicate_blank f)

end Filter

namespace Registry

variable (r : Registry)

theorem joinsOf_blank (host : Entity) (a : Association) (target : Entity) (kind : JoinKind)
    (p : Option Predicate) :
    r.joinsOf host a target kind (p.map Predicate.blank) =
      (r.joinsOf host a target kind p).map (List.map Join.blank) := by
  unfold joinsOf
  cases a.kind with
  | belongsToMany => cases r.link host.name a <;> rfl
  | _ => rfl

theorem findAssociation_blank (host : Entity) (i : Include) :
    r.findAssociation host i.blank = r.findAssociation host i := rfl

theorem includeJoins_blank (host : Entity) (i : Include) :
    r.includeJoins host i.blank = (r.includeJoins host i).map (List.map Join.blank) := by
  simp only [includeJoins, findAssociation_blank]
  simp [Include.blank, Filter.predicate?_blank, joinsOf_blank]

theorem joins_blank (host : Entity) (is : List Include) :
    r.joins host (is.map Include.blank) = (r.joins host is).map (List.map Join.blank) := by
  induction is with
  | nil => rfl
  | cons i is ih => simp [joins, includeJoins_blank, ih]

theorem requireDistinct_blank (used : List String) (js : List Join) :
    requireDistinct used (js.map Join.blank) = requireDistinct used js := by
  induction js generalizing used with
  | nil => rfl
  | cons j js ih => simp [requireDistinct, ih, Join.blank]

theorem source_blank (host : Entity) (o : FindOptions) :
    r.source host o.blank = Source.blank <$> r.source host o := by
  have ha : o.blank.includes.any (·.aliasName? == some host.table) =
      o.includes.any (·.aliasName? == some host.table) := by
    simp [FindOptions.blank, Include.blank, Function.comp_def]
  have hf : (Filter.predicate? o.blank.filter).result =
      Option.map Predicate.blank <$> (Filter.predicate? o.filter).result :=
    congrArg Draw.result (Filter.predicate?_blank o.filter)
  have hj : (r.joins host o.blank.includes).result =
      List.map Join.blank <$> (r.joins host o.includes).result :=
    congrArg Draw.result (r.joins_blank host o.includes)
  simp only [source, ha, hf, hj, bind_map_left, requireDistinct_blank]
  split
  · rfl
  · simp [Source.blank]

theorem includeShapes_blank (host : Entity) (used : List String) (is : List Include) :
    r.includeShapes host used (is.map Include.blank) = r.includeShapes host used is := by
  induction is generalizing used with
  | nil => rfl
  | cons i is ih =>
      simp only [List.map_cons, includeShapes, findAssociation_blank, ih]
      rfl

/-- What a caller's reference means has nothing to do with filters. -/
theorem resolve_blank (root : Entity) (js : List Join) (c : ColumnRef) :
    r.resolve root (js.map Join.blank) c = r.resolve root js c := by
  have hj : (js.map Join.blank).find? (·.aliasName == c.aliasName?.getD root.table) =
      (js.find? (·.aliasName == c.aliasName?.getD root.table)).map Join.blank := by
    rw [List.find?_map]
    rfl
  simp only [resolve, hj]
  cases js.find? (·.aliasName == c.aliasName?.getD root.table) <;> rfl

theorem select_blank (name : String) (o : FindOptions) :
    r.select name o.blank = Select.blank <$> r.select name o := by
  have hs (host : Entity) : r.shape host o.columns (o.includes.map Include.blank) =
      r.shape host o.columns o.includes := by
    simp [shape, includeShapes_blank]
  have hr (host : Entity) (s : Source) :
      r.resolve host s.blank.joins = r.resolve host s.joins :=
    funext (r.resolve_blank host s.joins)
  simp only [select, source_blank, map_bind, bind_map_left, hr]
  simp [FindOptions.blank, hs, Select.blank]

theorem count_blank (name : String) (o : FindOptions) :
    r.count name o.blank = Count.blank <$> r.count name o := by
  simp [count, source_blank, Count.blank]

theorem requireCells_blank (e : Entity) (row : Row) :
    e.requireCells row.blank = e.requireCells row := by
  simp [Entity.requireCells]

theorem insert_blank (name : String) (rows : List Row) :
    r.insert name (rows.map Row.blank) = Insert.blank <$> r.insert name rows := by
  have hm (e : Entity) : (rows.map Row.blank).forM e.requireCells = rows.forM e.requireCells := by
    simp [requireCells_blank]
  simp only [insert, hm, map_bind]
  refine bind_congr fun e => bind_congr fun _ => ?_
  simp only [List.any_map, Function.comp_def, Row.contains_blank]
  split
  · rfl
  · simp [Insert.blank, Row.get_blank, Function.comp_def]

theorem update_blank (name : String) (values : Row) (f : Option Filter) :
    r.update name values.blank (f.map Filter.blank) = Update.blank <$> r.update name values f := by
  have he : values.blank.isEmpty = values.isEmpty := by
    simp [Row.isEmpty, Row.blank, Row.names]
  simp only [update, he, requireCells_blank, Filter.predicateOrAll_blank, map_bind, bind_map_left]
  refine bind_congr fun e => ?_
  split
  · rfl
  · simp [Update.blank, Row.blank, Row.names, Function.comp_def]

theorem delete_blank (name : String) (f : Option Filter) :
    r.delete name (f.map Filter.blank) = Delete.blank <$> r.delete name f := by
  simp [delete, Filter.predicateOrAll_blank, Delete.blank]

end Registry

/-! ### Outlines of blanked plans -/

namespace Join

/-- The filters of blanked joins, without their values, are those of the joins. -/
theorem outline_filterFragments (js : List Join) (n : Nat) :
    ((filterFragments (js.map blank) n).filterMap id).map outline =
      ((filterFragments js n).filterMap id).map outline := by
  induction js generalizing n with
  | nil => rfl
  | cons j js ih =>
      cases hf : j.filter with
      | none => simpa [filterFragments, blank, hf] using ih n
      | some p =>
          have hi := ih (n + p.size)
          have hp := p.outline_blank (some j.aliasName) n
          simpa [filterFragments, blank, hf, Predicate.size_blank, hp] using hi

theorem fragment_blank (j : Join) : j.blank.fragment = j.fragment := rfl

end Join

namespace Source

theorem outline_filterFragments (s : Source) :
    s.blank.filterFragments.map outline = s.filterFragments.map outline := by
  cases hf : s.filter with
  | none => simpa [filterFragments, blank, hf] using Join.outline_filterFragments s.joins 0
  | some p =>
      have hj := Join.outline_filterFragments s.joins p.size
      have hp := p.outline_blank (some s.aliasName) 0
      simpa [filterFragments, blank, hf, Predicate.size_blank, hp] using hj

/-- What a `WHERE` clause is without its values depends on what its filters are without theirs. -/
theorem outline_whereClause (fs : List Fragment) :
    (whereClause fs).outline = whereClause (fs.map outline) := by
  cases fs <;> simp [whereClause]

theorem outline_blank (s : Source) : s.blank.fragment.outline = s.fragment.outline := by
  have hj : s.blank.joins.flatMap Join.fragment = s.joins.flatMap Join.fragment := by
    simp [blank, List.flatMap_map, Join.fragment_blank]
  have hw := s.outline_filterFragments
  simp [fragment, hj, outline_whereClause, hw]
  rfl

end Source

theorem Select.outline_blank (s : Select) : s.blank.fragment.outline = s.fragment.outline := by
  have h := s.source.outline_blank
  simp [fragment, blank, h]

theorem Count.outline_blank (c : Count) : c.blank.fragment.outline = c.fragment.outline := by
  have h := c.source.outline_blank
  simp [fragment, blank, h]

theorem Insert.outline_tuples (rows : List (List Value)) (n : Nat) :
    (tuples (rows.map fun vs => List.replicate vs.length .null) n).map outline =
      (tuples rows n).map outline := by
  induction rows generalizing n with
  | nil => rfl
  | cons vs rows ih => simp [tuples, ih]

theorem Insert.outline_blank (i : Insert) : i.blank.fragment.outline = i.fragment.outline := by
  have h := outline_tuples i.rows 0
  simp [fragment, blank, h]

theorem Update.outline_assign (cells : List (String × Value)) (n : Nat) :
    (assign (cells.map fun a => (a.1, .null)) n).map outline = (assign cells n).map outline := by
  induction cells generalizing n with
  | nil => rfl
  | cons c cells ih => simp [assign, ih]

theorem Update.outline_blank (u : Update) : u.blank.fragment.outline = u.fragment.outline := by
  have ha := outline_assign u.assignments 0
  have hf := u.filter.outline_blank none u.assignments.length
  simp [fragment, blank, ha, hf]

theorem Delete.outline_blank (d : Delete) : d.blank.fragment.outline = d.fragment.outline := by
  have h := d.filter.outline_blank none 0
  simp [fragment, blank, h]

/-! ### Every statement -/

/-- Of a blanked plan the same is seen as of the plan, if blanking hides nothing that is seen. -/
theorem map_eq_map_of_blank {ε α β : Type} {x y : Except ε α} {seen : α → β} {blank : α → α}
    (h : y = blank <$> x) (hb : ∀ a, seen (blank a) = seen a) : seen <$> y = seen <$> x := by
  rw [h, Functor.map_map]
  exact congrArg (· <$> x) (funext hb)

namespace Registry

variable (r : Registry) (name : String)

theorem outline_select_blank (o : FindOptions) :
    (·.statement.outline) <$> r.select name o.blank =
      (·.statement.outline) <$> r.select name o :=
  map_eq_map_of_blank (r.select_blank name o) fun s => statement_outline_congr s.outline_blank

theorem outline_count_blank (o : FindOptions) :
    (·.statement.outline) <$> r.count name o.blank = (·.statement.outline) <$> r.count name o :=
  map_eq_map_of_blank (r.count_blank name o) fun c => statement_outline_congr c.outline_blank

theorem outline_insert_blank (rows : List Row) :
    (·.statement.outline) <$> r.insert name (rows.map Row.blank) =
      (·.statement.outline) <$> r.insert name rows :=
  map_eq_map_of_blank (r.insert_blank name rows) fun i => statement_outline_congr i.outline_blank

theorem outline_update_blank (values : Row) (f : Option Filter) :
    (·.statement.outline) <$> r.update name values.blank (f.map Filter.blank) =
      (·.statement.outline) <$> r.update name values f :=
  map_eq_map_of_blank (r.update_blank name values f) fun u =>
    statement_outline_congr u.outline_blank

theorem outline_delete_blank (f : Option Filter) :
    (·.statement.outline) <$> r.delete name (f.map Filter.blank) =
      (·.statement.outline) <$> r.delete name f :=
  map_eq_map_of_blank (r.delete_blank name f) fun d => statement_outline_congr d.outline_blank

end Registry

/-- **No value reaches the text of a statement, the names of its parameters or an error.**  Filters
are alike if they are the same once they are blanked.  Two finds, counts, updates or deletes that
are the same but for alike filters, two updates that set the same names and two inserts of rows
with the same names are either both refused, with the same error, or they have the same text and
the same parameter names. -/
theorem outlines_uniform (r : Registry) (name : String) :
    (∀ o o' : FindOptions, o.blank = o'.blank →
      (·.statement.outline) <$> r.select name o = (·.statement.outline) <$> r.select name o') ∧
    (∀ o o' : FindOptions, o.blank = o'.blank →
      (·.statement.outline) <$> r.count name o = (·.statement.outline) <$> r.count name o') ∧
    (∀ rows rows' : List Row, rows.map Row.names = rows'.map Row.names →
      (·.statement.outline) <$> r.insert name rows =
        (·.statement.outline) <$> r.insert name rows') ∧
    (∀ (values values' : Row) (f f' : Option Filter), values.names = values'.names →
      f.map Filter.blank = f'.map Filter.blank →
        (·.statement.outline) <$> r.update name values f =
          (·.statement.outline) <$> r.update name values' f') ∧
    (∀ f f' : Option Filter, f.map Filter.blank = f'.map Filter.blank →
      (·.statement.outline) <$> r.delete name f = (·.statement.outline) <$> r.delete name f') := by
  refine ⟨?select, ?count, ?insert, ?update, ?delete⟩
  case select =>
    intro o o' h
    rw [← r.outline_select_blank name o, h, r.outline_select_blank]
  case count =>
    intro o o' h
    rw [← r.outline_count_blank name o, h, r.outline_count_blank]
  case insert =>
    intro rows rows' h
    rw [← r.outline_insert_blank name rows, Row.map_blank_of_names h, r.outline_insert_blank]
  case update =>
    intro values values' f f' hv hf
    rw [← r.outline_update_blank name values f, Row.blank_of_names hv, hf,
      r.outline_update_blank]
  case delete =>
    intro f f' h
    rw [← r.outline_delete_blank name f, h, r.outline_delete_blank]

/-- The filter `Filter.titled` with other values, some of them of other kinds. -/
def Filter.otherwiseTitled : Filter :=
  [("or", .list [.object [("title", .scalar (.bool true))],
      .object [("id", .object [("between", .list [.scalar (.string "a"), .scalar (.int64 0)])])]]),
    ("title", .object [("ne", .scalar .null)])]

/-- The options `shelf` with other values. -/
def otherShelf : FindOptions :=
  { FindOptions.all with
    filter := some Filter.otherwiseTitled
    includes :=
      [⟨"chapter", some "chapters", some [("heading", .list [.scalar (.string "\x60 OR TRUE"),
          .scalar (.bool false)])], false, none⟩,
        ⟨"tag", some "tags", some [("label", .object [("ne", .scalar (.int64 3))])], true,
          none⟩] }

theorem outlines_uniform_library :
    (∃ s s', Registry.library.select "book" shelf = .ok s ∧
      Registry.library.select "book" otherShelf = .ok s' ∧
        s.statement.outline = s'.statement.outline) ∧
    (∃ c c', Registry.library.count "book" shelf = .ok c ∧
      Registry.library.count "book" otherShelf = .ok c' ∧
        c.statement.outline = c'.statement.outline) ∧
    (∃ i i', Registry.library.insert "tag"
        [.ofList [("label", .string "new")], .ofList [("id", .int64 7)]] = .ok i ∧
      Registry.library.insert "tag"
        [.ofList [("label", .null)], .ofList [("id", .string "x")]] = .ok i' ∧
        i.statement.outline = i'.statement.outline) ∧
    (∃ u u', Registry.library.update "book" (.ofList [("title", .string "B")])
          (some Filter.titled) = .ok u ∧
      Registry.library.update "book" (.ofList [("title", .null)]) (some Filter.otherwiseTitled) =
        .ok u' ∧
        u.statement.outline = u'.statement.outline) ∧
    (∃ d d', Registry.library.delete "book" (some Filter.titled) = .ok d ∧
      Registry.library.delete "book" (some Filter.otherwiseTitled) = .ok d' ∧
        d.statement.outline = d'.statement.outline) := by
  obtain ⟨select, count, -, update, delete⟩ := outlines_uniform Registry.library "book"
  obtain ⟨-, -, insert, -, -⟩ := outlines_uniform Registry.library "tag"
  refine ⟨⟨_, _, rfl, rfl, ?_⟩, ⟨_, _, rfl, rfl, ?_⟩, ⟨_, _, rfl, rfl, ?_⟩, ⟨_, _, rfl, rfl, ?_⟩,
    ⟨_, _, rfl, rfl, ?_⟩⟩
  · exact Except.ok.inj (select shelf otherShelf rfl)
  · exact Except.ok.inj (count shelf otherShelf rfl)
  · exact Except.ok.inj (insert [.ofList [("label", .string "new")], .ofList [("id", .int64 7)]]
      [.ofList [("label", .null)], .ofList [("id", .string "x")]] rfl)
  · exact Except.ok.inj (update (.ofList [("title", .string "B")]) (.ofList [("title", .null)])
      (some Filter.titled) (some Filter.otherwiseTitled) rfl rfl)
  · exact Except.ok.inj (delete (some Filter.titled) (some Filter.otherwiseTitled) rfl)

end RowGraph
