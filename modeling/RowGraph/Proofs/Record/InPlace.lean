import RowGraph.Proofs.Record.Reference

/-!
# Proofs — Record — folding in place

The fold can be run so that it writes into records as it goes.  Three things are then kept in step:
the records in the making, whose includes have their fields behind the columns; an index that says
at which place the record of a root key stands; and for each include the keys it has.  Taking a row
can go wrong in four ways (`Mishap`).

* `Drafts.step_ofGroups`: on groups that fit the shape a step writes what the groups gather.
* `Shape.inPlace_eq`: so nothing goes wrong, for any shape and any rows.

**Folding flat rows is reading records off them** (`Shape.records_eq`), in place or not.
-/

namespace RowGraph

/-- What may be met when a flat row is written. -/
inductive Mishap where
  /-- The index leads to no record. -/
  | noRecord
  /-- There is no field where an include should have one. -/
  | noField
  /-- The field there is that of a column. -/
  | columnField
  /-- No keys are kept for the include. -/
  | noKeys
  deriving DecidableEq, Repr

/-! ### The fold in place -/

/-- A record in the making, and the keys that each include has. -/
structure Draft where
  fields : List (String × Field)
  seen : List (List Value)

namespace Draft

/-- The draft that a row of a new root key makes: its columns, and a field for each include. -/
def start (s : Shape) (row : Row) : Draft :=
  ⟨(s.root.project row).map (fun c => (c.1, .value c.2)) ++
      s.includes.map fun i => (i.table.aliasName, if i.kind.isMany then .many [] else .one none),
    s.includes.map fun _ => []⟩

/-- Writes a row of the `n`-th include, whose field is at `place`. -/
def write (d : Draft) (place n : Nat) (key : Value) (cells : Cells) : Except Mishap Draft :=
  match d.fields[place]? with
  | none => .error .noField
  | some (_, .value _) => .error .columnField
  | some (name, .one _) => .ok { d with fields := d.fields.set place (name, .one (some cells)) }
  | some (name, .many rows) =>
      match d.seen[n]? with
      | none => .error .noKeys
      | some keys =>
          if keys.any (·.same key) then .ok d
          else
            .ok ⟨d.fields.set place (name, .many (rows ++ [cells])), d.seen.set n (keys ++ [key])⟩

/-- Writes the rows of includes, the first of which is the `n`-th. -/
def fill (s : Shape) (row : Row) : Nat → List IncludeShape → Draft → Except Mishap Draft
  | _, [], d => .ok d
  | n, i :: is, d =>
      if (row.get i.table.keyLabel).isNull then fill s row (n + 1) is d
      else do
        let d ← d.write (s.root.columns.length + n) n (row.get i.table.keyLabel)
          (i.table.project row)
        fill s row (n + 1) is d

end Draft

/-- The records in the making, and at which place that of a root key stands. -/
structure Drafts where
  index : List (Value × Nat)
  drafts : List Draft

namespace Drafts

/-- The place for a row, made at the end if its key is new. -/
def locate (s : Shape) (row : Row) (m : Drafts) : Nat × Drafts :=
  match m.index.find? (·.1.same (s.rootKey row)) with
  | some (_, place) => (place, m)
  | none =>
      (m.drafts.length,
        ⟨m.index ++ [(s.rootKey row, m.drafts.length)], m.drafts ++ [.start s row]⟩)

/-- Writes a row into the draft at a place. -/
def writeAt (s : Shape) (row : Row) (place : Nat) (m : Drafts) : Except Mishap Drafts :=
  match m.drafts[place]? with
  | none => .error .noRecord
  | some d => do
      let d ← d.fill s row 0 s.includes
      return { m with drafts := m.drafts.set place d }

def step (s : Shape) (m : Drafts) (row : Row) : Except Mishap Drafts :=
  if (s.rootKey row).isNull then .ok m
  else writeAt s row (m.locate s row).1 (m.locate s row).2

end Drafts

/-- The records of flat rows, written in place. -/
def Shape.inPlace (s : Shape) (rows : List Row) : Except Mishap (List Record) := do
  let m ← rows.foldlM (Drafts.step s) ⟨[], []⟩
  return m.drafts.map fun d => ⟨d.fields⟩

/-! ### Groups as drafts -/

/-- The keys that are kept of what is gathered. -/
def Gathered.keys : Gathered → List Value
  | .one _ => []
  | .many rows => rows.map (·.1)

namespace Group

def draft (s : Shape) (g : Group) : Draft := ⟨(g.record s).fields, g.gathered.map Gathered.keys⟩

/-- The group has the columns and the includes of a shape. -/
structure Fits (s : Shape) (g : Group) : Prop where
  cells : g.cells.length = s.root.columns.length
  gathered : g.gathered.length = s.includes.length

theorem fits_start (s : Shape) (k : Value) (row : Row) : (Group.start s k row).Fits s where
  cells := List.length_map _
  gathered := List.length_map _

theorem Fits.absorb {s : Shape} {g : Group} (h : g.Fits s) (row : Row) :
    (g.absorb s row).Fits s where
  cells := h.cells
  gathered := by rw [Group.absorb, List.length_zipWith, h.gathered, Nat.min_self]

theorem fits_addRow {s : Shape} {gs : List Group} (hgs : ∀ g ∈ gs, g.Fits s) (k : Value)
    (row : Row) : ∀ g ∈ s.addRow k row gs, g.Fits s := by
  induction gs with
  | nil => exact List.forall_mem_singleton.mpr ((fits_start s k row).absorb row)
  | cons g gs ih =>
      obtain ⟨hg, hgs⟩ := List.forall_mem_cons.mp hgs
      rw [Shape.addRow]
      split
      · exact List.forall_mem_cons.mpr ⟨hg.absorb row, hgs⟩
      · exact List.forall_mem_cons.mpr ⟨hg, ih hgs⟩

theorem fits_step {s : Shape} {gs : List Group} (hgs : ∀ g ∈ gs, g.Fits s) (row : Row) :
    ∀ g ∈ s.step gs row, g.Fits s := by
  rw [Shape.step]
  split
  · exact hgs
  · exact fits_addRow hgs _ row

theorem draft_start (s : Shape) (k : Value) (row : Row) :
    (Group.start s k row).draft s = .start s row := by
  have hfield (i : IncludeShape) :
      (Gathered.start i).field = if i.kind.isMany then .many [] else .one none := by
    rw [Gathered.start]
    split <;> rfl
  have hkeys (i : IncludeShape) : (Gathered.start i).keys = [] := by
    rw [Gathered.start]
    split <;> rfl
  rw [draft, Group.record, Group.start, Draft.start, List.zipWith_map_right, List.zipWith_self,
    List.map_map]
  simp only [hfield, Function.comp_def, hkeys]

end Group

namespace Draft

variable {s : Shape} {row : Row}

/-- Writing a row at an include's field is adding it to what the include has gathered. -/
theorem write_append (fs rest : List (String × Field)) (ks more : List (List Value))
    (name : String) (g : Gathered) (key : Value) (cells : Cells) :
    Draft.write ⟨fs ++ (name, g.field) :: rest, ks ++ g.keys :: more⟩ fs.length ks.length key
        cells =
      .ok ⟨fs ++ (name, (g.add key cells).field) :: rest,
        ks ++ (g.add key cells).keys :: more⟩ := by
  have hf : (fs ++ (name, g.field) :: rest)[fs.length]? = some (name, g.field) := by simp
  have hk : (ks ++ g.keys :: more)[ks.length]? = some g.keys := by simp
  unfold write
  rw [hf]
  cases g with
  | one r => simp [Gathered.field, Gathered.add, Gathered.keys]
  | many rows =>
      simp only [Gathered.field, hk]
      simp only [Gathered.add, Gathered.keys, List.any_map, Function.comp_def]
      split <;> simp

/-- Filling a draft is absorbing the row, include by include. -/
theorem fill_append (is : List IncludeShape) (gs : List Gathered) (hl : gs.length = is.length)
    (fs : List (String × Field)) (ks : List (List Value))
    (hf : fs.length = s.root.columns.length + ks.length) :
    fill s row ks.length is
        ⟨fs ++ is.zipWith (fun i x => (i.table.aliasName, x.field)) gs,
          ks ++ gs.map Gathered.keys⟩ =
      .ok ⟨fs ++ is.zipWith (fun i x => (i.table.aliasName, x.field))
          (is.zipWith (fun i x => x.absorb i.table row) gs),
        ks ++ (is.zipWith (fun i x => x.absorb i.table row) gs).map Gathered.keys⟩ := by
  induction is generalizing gs fs ks with
  | nil => simp [List.length_eq_zero_iff.mp hl, fill]
  | cons i is ih =>
      obtain ⟨g, gs, rfl⟩ := List.exists_cons_of_length_eq_add_one hl
      -- once it is written, the field of the first include is one of those in front
      have hnext := ih gs (Nat.succ.inj hl)
        (fs ++ [(i.table.aliasName, (g.absorb i.table row).field)])
        (ks ++ [(g.absorb i.table row).keys]) (by simp [hf, Nat.add_assoc])
      simp only [List.append_assoc, List.singleton_append, List.length_append,
        List.length_singleton] at hnext
      simp only [List.zipWith_cons_cons, List.map_cons, fill]
      rw [← hf]
      by_cases hn : (row.get i.table.keyLabel).isNull
      · have hg : g.absorb i.table row = g := by rw [Gathered.absorb, if_pos hn]
        rw [hg] at hnext ⊢
        rw [if_pos hn]
        exact hnext
      · have hg : g.absorb i.table row =
            g.add (row.get i.table.keyLabel) (i.table.project row) := by
          rw [Gathered.absorb, if_neg hn]
        rw [hg] at hnext ⊢
        rw [if_neg hn, write_append]
        exact hnext

/-- **Filling the draft of a group gives the draft of the group that has absorbed the row.** -/
theorem fill_draft {g : Group} (hg : g.Fits s) :
    (g.draft s).fill s row 0 s.includes = .ok ((g.absorb s row).draft s) := by
  have hf : (g.cells.map fun c => (c.1, Field.value c.2)).length =
      s.root.columns.length + ([] : List (List Value)).length := by
    rw [List.length_map, hg.cells]
    rfl
  exact fill_append s.includes g.gathered hg.gathered _ [] hf

end Draft

/-! ### Taking a row -/

namespace Drafts

variable {s : Shape}

/-- Groups as drafts, with an index of their keys. -/
def ofGroups (s : Shape) (gs : List Group) : Drafts :=
  ⟨(gs.map (·.key)).zipIdx, gs.map (Group.draft s)⟩

/-- The place that an index of groups has for a key is that of the group which takes its rows. -/
theorem addRow_of_find? {gs : List Group} {k k' : Value} {n place : Nat}
    (h : ((gs.map (·.key)).zipIdx n).find? (·.1.same k) = some (k', place)) (row : Row) :
    ∃ before g after, gs = before ++ g :: after ∧ place = n + before.length ∧
      s.addRow k row gs = before ++ g.absorb s row :: after := by
  induction gs generalizing n with
  | nil => cases h
  | cons g gs ih =>
      rw [List.map_cons, List.zipIdx_cons, List.find?_cons] at h
      rw [Shape.addRow]
      cases hs : g.key.same k with
      | true =>
          simp only [hs, Option.some.injEq, Prod.mk.injEq] at h
          exact ⟨[], g, gs, rfl, h.2.symm, rfl⟩
      | false =>
          simp only [hs] at h
          obtain ⟨before, g', after, rfl, hp, ha⟩ := ih h
          refine ⟨g :: before, g', after, rfl, ?_, ?_⟩
          · rw [hp, List.length_cons, Nat.add_assoc, Nat.add_comm 1]
          · rw [ha]
            rfl

theorem addRow_of_find?_none {gs : List Group} {k : Value}
    (h : (gs.map (·.key)).zipIdx.find? (·.1.same k) = none) (row : Row) :
    s.addRow k row gs = gs ++ [(Group.start s k row).absorb s row] := by
  refine Shape.addRow_of_not_same (fun g hg => ?_) row
  obtain ⟨n, hn⟩ := List.mem_iff_getElem?.mp (List.mem_map_of_mem (f := (·.key)) hg)
  have hm : (g.key, n) ∈ (gs.map (·.key)).zipIdx := List.mem_zipIdx_iff_getElem?.mpr hn
  simpa using List.find?_eq_none.mp h _ hm

/-- Writing at the place of a group is absorbing the row. -/
theorem writeAt_ofGroups {before after : List Group} {g : Group} (hg : g.Fits s) (row : Row) :
    writeAt s row before.length (ofGroups s (before ++ g :: after)) =
      .ok (ofGroups s (before ++ g.absorb s row :: after)) := by
  have hd : (ofGroups s (before ++ g :: after)).drafts[before.length]? = some (g.draft s) := by
    simp [ofGroups]
  rw [writeAt, hd]
  simp [Draft.fill_draft hg, ofGroups, bind, Except.bind, pure, Except.pure, Group.absorb]

theorem step_ofGroups {gs : List Group} (hgs : ∀ g ∈ gs, g.Fits s) (row : Row) :
    step s (ofGroups s gs) row = .ok (ofGroups s (s.step gs row)) := by
  rw [step, Shape.step]
  by_cases hn : (s.rootKey row).isNull
  · rw [if_pos hn, if_pos hn]
  · rw [if_neg hn, if_neg hn, locate]
    cases h : (ofGroups s gs).index.find? (·.1.same (s.rootKey row)) with
    | some p =>
        obtain ⟨k', place⟩ := p
        obtain ⟨before, g, after, rfl, hp, ha⟩ := addRow_of_find? (s := s) h row
        rw [Nat.zero_add] at hp
        subst hp
        rw [ha, ← writeAt_ofGroups (hgs g (by simp))]
    | none =>
        -- the draft made at the end is that of a group which then takes the row
        have hmake : ofGroups s (gs ++ [Group.start s (s.rootKey row) row]) =
            ⟨(ofGroups s gs).index ++ [(s.rootKey row, (ofGroups s gs).drafts.length)],
              (ofGroups s gs).drafts ++ [.start s row]⟩ := by
          have hkey : (Group.start s (s.rootKey row) row).key = s.rootKey row := rfl
          simp [ofGroups, List.zipIdx_append, Group.draft_start, hkey]
        have hlen : (ofGroups s gs).drafts.length = gs.length := List.length_map _
        rw [addRow_of_find?_none h, ← writeAt_ofGroups (Group.fits_start s _ row), hmake, hlen]

theorem foldlM_step {gs : List Group} (hgs : ∀ g ∈ gs, g.Fits s) (rows : List Row) :
    rows.foldlM (step s) (ofGroups s gs) = .ok (ofGroups s (rows.foldl s.step gs)) := by
  induction rows generalizing gs with
  | nil => rfl
  | cons row rows ih =>
      rw [List.foldlM_cons, step_ofGroups hgs]
      exact ih (Group.fits_step hgs row)

end Drafts

/-! ### Records -/

namespace Shape

/-- **Nothing goes wrong in place**, and what is written are the records of the groups. -/
theorem inPlace_eq (s : Shape) (rows : List Row) :
    s.inPlace rows = .ok ((s.groups rows).map (Group.record s)) := by
  have h : rows.foldlM (Drafts.step s) ⟨[], []⟩ = .ok (Drafts.ofGroups s (s.groups rows)) :=
    @Drafts.foldlM_step s [] (fun _ hg => nomatch hg) rows
  rw [inPlace, h]
  exact congrArg Except.ok (List.map_map ..)

theorem records_eq_map {s : Shape} (hs : s.includes ≠ []) (rows : List Row) :
    s.records rows = (s.groups rows).map (Group.record s) := by
  rw [records, if_neg (by simpa using hs)]

/-- **Folding flat rows is reading records off them.**  Whatever the shape and the rows, there is
one record for each root key that is not null, in the order in which the keys are first met; it has
the columns of the first row of its key, and for each include the first row of each of its keys, or
its last row, among the rows of this root key.  These rows alone make the record, rows without a
root make none, and when the records are written in place nothing goes wrong. -/
theorem records_eq (s : Shape) (hs : s.includes ≠ []) (rows : List Row) :
    s.records rows =
        (s.root.firstsIn rows).map (fun first => s.recordOf first (s.sameRoot first rows)) ∧
      (s.root.firstsIn rows).map s.rootKey = Value.distinct (rows.map s.rootKey) ∧
      (Value.distinct (rows.map s.rootKey)).Nodup ∧
      (∀ k, k ∈ Value.distinct (rows.map s.rootKey) ↔
        (∃ row ∈ rows, s.rootKey row = k) ∧ k.isNull = false) ∧
      (∀ first ∈ s.root.firstsIn rows, (s.sameRoot first rows).head? = some first ∧
        s.records (s.sameRoot first rows) = [s.recordOf first (s.sameRoot first rows)]) ∧
      s.records (s.root.present rows) = s.records rows ∧
      s.inPlace rows = .ok (s.records rows) := by
  have hrecords := records_eq_map hs
  refine ⟨?_, s.root.keys_firstsIn rows, Value.nodup_distinct _, fun k => ?_, fun first hf => ?_,
    ?_, ?_⟩
  · rw [hrecords, map_record_groups]
  · rw [Value.mem_distinct, List.mem_map]
  · have hhead := head?_sameRoot_of_mem_firstsIn hf
    refine ⟨hhead, ?_⟩
    rw [hrecords, groups_sameRoot (rootKey_of_mem_firstsIn hf) hhead, List.map_singleton,
      record_groupOf]
  · rw [hrecords, hrecords, groups_present]
  · rw [inPlace_eq, hrecords]

/-- Books with their chapters, and with the author there is in the end. -/
def bookShape : Shape where
  root := ⟨"book", "id", ["id", "title"]⟩
  includes :=
    [⟨.hasMany, ⟨"chapters", "id", ["id", "heading"]⟩⟩, ⟨.belongsTo, ⟨"author", "id", ["id"]⟩⟩]

/-- Rows of two books that take turns, with one of no book between them. -/
def bookRows : List Row :=
  [.ofList [("book_id", .int64 1), ("book_title", .string "A"), ("chapters_id", .int64 1),
      ("chapters_heading", .string "One"), ("author_id", .int64 7)],
    .ofList [("book_id", .int64 2), ("author_id", .int64 5)],
    .ofList [("chapters_id", .int64 9), ("author_id", .int64 9)],
    .ofList [("book_id", .int64 1), ("chapters_id", .int64 2), ("author_id", .int64 8)],
    .ofList [("book_id", .int64 1), ("book_title", .string "B"), ("chapters_id", .int64 1)]]

theorem records_eq_bookRows :
    bookShape.inPlace bookRows =
      .ok [⟨[("id", .value (.int64 1)), ("title", .value (.string "A")),
            ("chapters", .many
              [[("id", .int64 1), ("heading", .string "One")],
                [("id", .int64 2), ("heading", .null)]]),
            ("author", .one (some [("id", .int64 8)]))]⟩,
          ⟨[("id", .value (.int64 2)), ("title", .value .null), ("chapters", .many []),
            ("author", .one (some [("id", .int64 5)]))]⟩] := by
  obtain ⟨hrecords, -, -, -, -, -, hplace⟩ :=
    records_eq bookShape (List.cons_ne_nil _ _) bookRows
  rw [hplace, hrecords]
  rfl

end Shape

end RowGraph
