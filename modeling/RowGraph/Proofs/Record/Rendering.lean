import RowGraph.Proofs.Find.Scope
import RowGraph.Proofs.Record.Reference
import RowGraph.Proofs.Value.Json

/-!
# Proofs — Record — names and rendering

A record is written in two ways: its fields as they come, and the document made of it, in which a
name stands only once.  The two agree if no name stands twice in the record or in a row it includes
(`Record.text_toJson`), and need not if one does.

The names of a find's records are columns of the host, read once each, and aliases of its includes,
of which no two are the same.  No alias is a column of the host either, since no association is
made under such an alias.  So **the records of a find, and the rows they include, have different
names, by which every field is found, and both ways of writing them agree** (`records_render`).
-/

namespace RowGraph

/-! ### Two ways of writing -/

/-- The columns of a row, as a record that includes nothing. -/
def Cells.record (cs : Cells) : Record := ⟨cs.map fun c => (c.1, .value c.2)⟩

/-- The rows a field includes. -/
def Field.nested : Field → List Record
  | .value _ => []
  | .one row => row.toList.map Cells.record
  | .many rows => rows.map Cells.record

namespace Record

def names (r : Record) : List String := r.fields.map (·.1)

/-- The record and the rows it includes. -/
def parts (r : Record) : List Record := r :: r.fields.flatMap (·.2.nested)

/-- The fields have different names, each is found by its own, and the record is written as its
document is. -/
structure Renders (r : Record) : Prop where
  nodup : r.names.Nodup
  found : ∀ f ∈ r.fields, r.get? f.1 = some f.2
  text : r.toJson.text = r.serialize

end Record

namespace Cells

theorem names_record (cs : Cells) : cs.record.names = cs.map (·.1) := List.map_map

/-- A row includes nothing. -/
theorem parts_record (cs : Cells) : cs.record.parts = [cs.record] := by
  rw [Record.parts, record, List.flatMap_map]
  exact congrArg _ (List.flatMap_eq_nil_iff.mpr fun _ _ => rfl)

theorem text_toJson {cs : Cells} (h : cs.record.names.Nodup) : cs.toJson.text = cs.serialize := by
  rw [names_record] at h
  exact Json.text_ofMembers_map h fun c _ => c.2.text_toJson

end Cells

theorem Field.text_toJson {f : Field} (h : ∀ part ∈ f.nested, part.names.Nodup) :
    f.toJson.text = f.serialize := by
  cases f with
  | value v => exact v.text_toJson
  | one row =>
      cases row with
      | none => rfl
      | some row => exact Cells.text_toJson (h _ List.mem_cons_self)
  | many rows =>
      rw [toJson, Json.text, Json.texts_eq_map, List.map_map]
      refine congrArg Json.bracket (List.map_congr_left fun row hrow => ?_)
      exact Cells.text_toJson (h _ (List.mem_map_of_mem hrow))

namespace Record

variable {r : Record}

theorem self_mem_parts (r : Record) : r ∈ r.parts := List.mem_cons_self

theorem mem_parts_of_mem_nested {f : String × Field} (hf : f ∈ r.fields) {part : Record}
    (hp : part ∈ f.2.nested) : part ∈ r.parts :=
  List.mem_cons_of_mem _ (List.mem_flatMap.mpr ⟨f, hf, hp⟩)

/-- A part is the record itself or a row. -/
theorem eq_or_exists_of_mem_parts {part : Record} (h : part ∈ r.parts) :
    part = r ∨ ∃ cs : Cells, part = cs.record := by
  rcases List.mem_cons.mp h with rfl | h
  · exact .inl rfl
  · obtain ⟨f, -, hp⟩ := List.mem_flatMap.mp h
    match f.2, hp with
    | .one (some row), hp => exact .inr ⟨row, List.mem_singleton.mp hp⟩
    | .many rows, hp =>
        obtain ⟨row, -, rfl⟩ := List.mem_map.mp hp
        exact .inr ⟨row, rfl⟩

theorem mem_parts_trans {part p : Record} (h : part ∈ r.parts) (hp : p ∈ part.parts) :
    p ∈ r.parts := by
  rcases eq_or_exists_of_mem_parts h with rfl | ⟨cs, rfl⟩
  · exact hp
  · rw [cs.parts_record, List.mem_singleton] at hp
    exact hp ▸ h

/-- Where no name stands twice, the record is written as its document is. -/
theorem text_toJson (h : ∀ part ∈ r.parts, part.names.Nodup) : r.toJson.text = r.serialize :=
  Json.text_ofMembers_map (h r r.self_mem_parts) fun _ hf =>
    Field.text_toJson fun part hp => h part (mem_parts_of_mem_nested hf hp)

/-- Where a name stands twice, its last value takes the place of its first in the document. -/
example : (⟨[("a", .value .null), ("b", .one none), ("a", .many [])]⟩ : Record).toJson.text =
      "\x7b\"a\":[],\"b\":null\x7d" ∧
    (⟨[("a", .value .null), ("b", .one none), ("a", .many [])]⟩ : Record).serialize =
      "\x7b\"a\":null,\"b\":null,\"a\":[]\x7d" := by decide

theorem renders_of_mem_parts (h : ∀ part ∈ r.parts, part.names.Nodup) :
    ∀ part ∈ r.parts, part.Renders := by
  intro part hp
  have hn := h part hp
  refine ⟨hn, fun f hf => ?_, text_toJson fun p hpp => h p (mem_parts_trans hp hpp)⟩
  rw [get?, Registry.find?_key hn hf]
  rfl

end Record

/-! ### Names -/

theorem TableShape.names_project (t : TableShape) (row : Row) :
    (t.project row).record.names = t.columns := by
  rw [Cells.names_record, project, List.map_map]
  exact List.map_id _

namespace Shape

variable {s : Shape}

/-- The names of the fields of records. -/
def names (s : Shape) : List String := s.root.columns ++ s.includes.map (·.table.aliasName)

/-- A record is the record of some rows, whether or not anything is included. -/
theorem exists_recordOf_of_mem {rows : List Row} {record : Record} (h : record ∈ s.records rows) :
    ∃ first group, record = s.recordOf first group := by
  rw [records] at h
  split at h
  case isTrue hs =>
      obtain ⟨row, -, rfl⟩ := List.mem_map.mp h
      refine ⟨row, [], ?_⟩
      rw [recordOf, List.isEmpty_iff.mp hs, List.map_nil, List.append_nil, flatRecord]
  case isFalse =>
      rw [map_record_groups] at h
      obtain ⟨first, -, rfl⟩ := List.mem_map.mp h
      exact ⟨first, _, rfl⟩

theorem names_recordOf (s : Shape) (first : Row) (rows : List Row) :
    (s.recordOf first rows).names = s.names := by
  have hroot := s.root.names_project first
  rw [Record.names, Cells.record] at hroot
  rw [Record.names, recordOf, List.map_append, hroot, List.map_map, names]
  rfl

/-- What a record includes are rows of the table that stands under the field's name. -/
theorem exists_of_mem_nested {first : Row} {rows : List Row} {f : String × Field}
    (hf : f ∈ (s.recordOf first rows).fields) {part : Record} (hp : part ∈ f.2.nested) :
    ∃ i ∈ s.includes, f.1 = i.table.aliasName ∧ part.names = i.table.columns := by
  rcases List.mem_append.mp hf with hf | hf
  · obtain ⟨c, -, rfl⟩ := List.mem_map.mp hf
    cases hp
  · obtain ⟨i, hi, rfl⟩ := List.mem_map.mp hf
    refine ⟨i, hi, rfl, ?_⟩
    dsimp only at hp
    rw [IncludeShape.fieldOf] at hp
    split at hp
    case isTrue =>
        obtain ⟨_, hcs, rfl⟩ := List.mem_map.mp hp
        obtain ⟨row, -, rfl⟩ := List.mem_map.mp hcs
        exact i.table.names_project row
    case isFalse =>
        obtain ⟨_, hcs, rfl⟩ := List.mem_map.mp hp
        obtain ⟨row, -, rfl⟩ := Option.map_eq_some_iff.mp (Option.mem_toList.mp hcs)
        exact i.table.names_project row

/-- Different names of the root and of every table are different names of all parts. -/
theorem nodup_parts (hn : s.names.Nodup) (hi : ∀ i ∈ s.includes, i.table.columns.Nodup)
    {first : Row} {rows : List Row} : ∀ part ∈ (s.recordOf first rows).parts, part.names.Nodup := by
  intro part hp
  rcases List.mem_cons.mp hp with rfl | hp
  · rw [names_recordOf]
    exact hn
  · obtain ⟨f, hf, hp⟩ := List.mem_flatMap.mp hp
    obtain ⟨i, him, -, hnames⟩ := exists_of_mem_nested hf hp
    rw [hnames]
    exact hi i him

end Shape

namespace Select.Planned

variable {r : Registry} {name : String} {o : FindOptions} {s : Select} {host : Entity}
  {xs : List Inclusion}

theorem includeAliases (h : s.Planned r name o host xs) :
    s.shape.includes.map (·.table.aliasName) = o.includes.map r.includeAlias := by
  rw [h.includes, ← h.requests, List.map_map, List.map_map]
  exact List.map_congr_left fun x hx =>
    Registry.aliasName_of_findAssociation (h.resolved x hx).found

/-- Columns are read once, no two includes have one alias, and none has a column of the host. -/
theorem nodup_fieldNames (h : s.Planned r name o host xs) (hr : r.Reached) :
    s.shape.names.Nodup := by
  have hmem := Registry.mem_of_get? h.found
  have haliases : (s.shape.includes.map (·.table.aliasName)).Nodup := by
    have ha := h.nodup_aliases
    rw [Shape.tables, List.map_cons, List.map_map] at ha
    exact (List.nodup_cons.mp ha).2
  refine List.Nodup.append (h.keyed _ List.mem_cons_self).nodup haliases fun c hc ha => ?_
  have hcolumn := Entity.mem_columnNames_of_projection h.rootColumns c hc
  rw [h.includes, List.map_map] at ha
  obtain ⟨x, hx, rfl⟩ := List.mem_map.mp ha
  obtain ⟨-, -, hassociation⟩ := Registry.findAssociation_eq_ok (h.resolved x hx).found
  exact hr.lawful.free host hmem _ hassociation hcolumn

end Select.Planned

/-! ### Records of a find -/

/-- **The records of a find have different names and are written alike.**  Whatever the rows and
their values, a record names the columns read of the host and then its includes, as requested; each
row that it includes stands under the alias of an include and names the columns read of its target.
In all of them every field is found by its name, and the text of the document made of them is the
text that is written straight away. -/
theorem records_render {r : Registry} (hr : r.Reached) {name : String} {o : FindOptions}
    {s : Select} (h : r.select name o = .ok s) (rows : List Row) :
    ∃ host, r.get? name = some host ∧ host.projection o.columns = .ok s.shape.root.columns ∧
      ∀ record ∈ s.shape.records rows,
        record.names = s.shape.root.columns ++ o.includes.map r.includeAlias ∧
        (∀ f ∈ record.fields, ∀ part ∈ f.2.nested, ∃ i ∈ o.includes, ∃ target,
          r.get? i.target = some target ∧ f.1 = r.includeAlias i ∧
            target.projection i.columns = .ok part.names) ∧
        ∀ part ∈ record.parts, part.Renders := by
  obtain ⟨host, xs, hs⟩ := Registry.planned_of_select h
  refine ⟨host, hs.found, hs.rootColumns, fun record hrecord => ?_⟩
  obtain ⟨first, group, rfl⟩ := Shape.exists_recordOf_of_mem hrecord
  refine ⟨?_, fun f hf part hp => ?_, Record.renders_of_mem_parts ?_⟩
  · rw [Shape.names_recordOf, Shape.names, hs.includeAliases]
  · obtain ⟨i, hi, hname, hcolumns⟩ := Shape.exists_of_mem_nested hf hp
    rw [hs.includes] at hi
    obtain ⟨x, hx, rfl⟩ := List.mem_map.mp hi
    obtain ⟨ht, -, -⟩ := Registry.findAssociation_eq_ok (hs.resolved x hx).found
    refine ⟨x.request, hs.requests ▸ List.mem_map_of_mem hx, x.target, ht, ?_, ?_⟩
    · exact hname.trans (Registry.aliasName_of_findAssociation (hs.resolved x hx).found)
    · rw [hcolumns]
      exact hs.columns x hx
  · have hkeyed := hs.keyed
    exact Shape.nodup_parts (hs.nodup_fieldNames hr) fun i hi =>
      (hkeyed i.table (List.mem_cons_of_mem _ (List.mem_map_of_mem hi))).nodup

/-- The titles of books, with the keys of their tags. -/
def titles : FindOptions :=
  { FindOptions.all with
    columns := some ["title"]
    includes := [⟨"tag", some "tags", none, true, some []⟩] }

/-- A book that has bytes and a float that is none for its title, and two tags. -/
def oddRows : List Row :=
  [.ofList [("book_id", .int64 1), ("tags_id", .string "a"),
      ("book_title", .array [.bytes [0, 255], .float64 ⟨0x7ff8000000000000⟩])],
    .ofList [("book_id", .int64 1), ("tags_id", .bool true)]]

theorem records_render_oddRows :
    ∃ s, Registry.library.select "book" titles = .ok s ∧
      ∃ record ∈ s.shape.records oddRows, record.names = ["id", "title", "tags"] ∧
        (∀ part ∈ record.parts, part.toJson.text = part.serialize) ∧ record.toJson.text =
          "\x7b\"id\":1,\"title\":[[0,255],null]," ++
            "\"tags\":[\x7b\"id\":\"a\"\x7d,\x7b\"id\":true\x7d]\x7d" := by
  refine ⟨_, rfl, ?_⟩
  obtain ⟨host, -, -, hrecords⟩ :=
    @records_render _ Registry.reached_library "book" titles _ rfl oddRows
  obtain ⟨hnames, -, hparts⟩ := hrecords _ List.mem_cons_self
  refine ⟨_, List.mem_cons_self, hnames, fun part hp => (hparts part hp).text, ?_⟩
  rw [(hparts _ (Record.self_mem_parts _)).text]
  rfl

end RowGraph
