import RowGraph.Proofs.Sql.Section
import RowGraph.Proofs.Write.Insert

/-!
# Proofs — Write — updates and deletes say what was asked

A write that changes rows has one `WHERE` outside of parentheses, whatever its filter is: no
predicate has another one (`Fragment.kept_whole`).  Read from the text, the assignments of an update
stand in front of it, and the condition behind it.

**An update assigns the cells it was given to the rows its filter is about, and a delete removes
them** (`changes_as_asked`).  The condition is the one the filter compiles to, numbered on from the
assignments, or `TRUE`.  Where the filter does not compile there is no statement.
-/

namespace RowGraph

open Sql Fragment

/-! ### What is required -/

/-- The condition of a filter, its columns without a qualifier: `TRUE` if there is none. -/
def Filter.conditionFrom (n : Nat) : Option Filter → Except Error Fragment
  | none => .ok (.token .true)
  | some f => (f.compile none n).1

namespace Registry

/-- What an update requires, in this order. -/
def updateRequirements (r : Registry) (name : String) (row : Row) (f : Option Filter) :
    List Requirement :=
  .defined r name :: ⟨row.cells ≠ [], .noValues name⟩ ::
    (Requirement.cells r name row ++ Requirement.ofResult (Filter.conditionFrom row.cells.length f))

/-- What a delete requires, in this order. -/
def deleteRequirements (r : Registry) (name : String) (f : Option Filter) : List Requirement :=
  .defined r name :: Requirement.ofResult (Filter.conditionFrom 0 f)

end Registry

theorem Filter.conditionFrom_eq (n : Nat) (f : Option Filter) :
    conditionFrom n f = (predicateOrAll f).map fun p => p.fragment none n := by
  cases f with
  | none => rfl
  | some f => exact congrArg Prod.fst (compile_eq f none n)

theorem Filter.requires_predicateOrAll (n : Nat) (f : Option Filter) :
    Requires (predicateOrAll f) (Requirement.ofResult (conditionFrom n f)) := by
  rw [conditionFrom_eq]
  cases predicateOrAll f with
  | ok p => exact requires_ok p
  | error e => exact requires_ofResult (.error e)

namespace Registry

theorem requires_update (r : Registry) (name : String) (row : Row) (f : Option Filter) :
    Requires (r.update name row f) (r.updateRequirements name row f) := by
  refine (r.requires_entity name).bind fun e he => ?_
  have he := entity_eq_ok he
  have hempty : row.isEmpty ↔ row.cells = [] := List.isEmpty_iff
  refine requires_cons.mpr ⟨fun h => ?_, fun h => ?_⟩
  · dsimp only
    rw [if_neg (hempty.not.mpr h)]
    refine (requires_requireCells he row).bind fun _ _ => ?_
    exact (Filter.requires_predicateOrAll row.cells.length f).bind_ok
  · dsimp only
    rw [if_pos (hempty.mpr (not_not.mp h)), name_of_get? he]
    rfl

theorem requires_delete (r : Registry) (name : String) (f : Option Filter) :
    Requires (r.delete name f) (r.deleteRequirements name f) :=
  (r.requires_entity name).bind fun _ _ => (Filter.requires_predicateOrAll 0 f).bind_ok

end Registry

/-! ### What is read -/

/-- An update as it is read: the columns with the names of their placeholders, and what stands
behind `WHERE`. -/
structure UpdateText where
  table : String
  assignments : List (String × String)
  condition : List Lexeme
  deriving DecidableEq, Repr

/-- A delete as it is read. -/
structure DeleteText where
  table : String
  condition : List Lexeme
  deriving DecidableEq, Repr

def Sql.Lexeme.assignment? : List Lexeme → Option (String × String)
  | [.ident column, .mark .eq, .param name] => some (column, name)
  | _ => none

/-- There is one `WHERE` outside of parentheses. -/
def UpdateText.read (sql : String) : Option UpdateText := do
  let ls ← Lexeme.read sql
  match ← Lexeme.parts (.word "WHERE") ls with
  | [.word "UPDATE" :: .ident table :: .word "SET" :: assignments, condition] => do
      let ps ← Lexeme.parts (.mark .comma) assignments
      let as ← ps.mapM Lexeme.assignment?
      return ⟨table, as, condition⟩
  | _ => none

@[inherit_doc UpdateText.read]
def DeleteText.read (sql : String) : Option DeleteText := do
  let ls ← Lexeme.read sql
  match ← Lexeme.parts (.word "WHERE") ls with
  | [[.word "DELETE", .word "FROM", .ident table], condition] => return ⟨table, condition⟩
  | _ => none

/-! ### Reading it back -/

namespace Sql.Fragment

theorem flat_where : (Lexeme.word "WHERE").Flat := fun _ => rfl

/-- No predicate has a `WHERE` of its own. -/
theorem kept_whole : Kept fun f => Lexeme.Whole (.word "WHERE") 0 f.lexemes where
  nil := Lexeme.whole_nil
  append {f g} hf hg := by
    rw [lexemes_append]
    exact hf.append hg
  parens hf := Lexeme.Whole.parens flat_where (Lexeme.Whole.mono hf (Nat.zero_le 1))
  token {t} hb hp := by
    have hall : ∀ t ∈ Token.all, t.begins = false → (t.isPunctuation = false ∨ t = .comma) →
        ∀ l ∈ t.lexemes, l ≠ .mark .lparen ∧ l ≠ .mark .rparen ∧ l ≠ .word "WHERE" := by decide
    have ht : (token t).lexemes = t.lexemes := List.append_nil _
    rw [ht]
    refine Lexeme.whole_of_forall fun l hl => ?_
    obtain ⟨ho, hc, hw⟩ := hall t t.mem_all hb hp l hl
    exact ⟨Lexeme.flat_of_ne ho hc, fun _ => hw⟩
  unnest := Lexeme.whole_singleton (fun _ => rfl) fun _ => by decide
  ident name := Lexeme.whole_singleton (fun _ => rfl) fun _ => by simp
  column q name := by
    have hi (name : String) : Lexeme.Whole (.word "WHERE") 0 [.ident name] :=
      Lexeme.whole_singleton (fun _ => rfl) fun _ => by simp
    have hd : Lexeme.Whole (.word "WHERE") 0 [.mark .dot] :=
      Lexeme.whole_singleton (fun _ => rfl) fun _ => by simp
    cases q with
    | none => exact hi name
    | some q => exact (hi q).append (hd.append (hi name))
  param n v := Lexeme.whole_singleton (fun _ => rfl) fun _ => by simp

/-- In front of `WHERE` and behind it. -/
theorem parts_where {f : Fragment} (hf : Lexeme.Whole (.word "WHERE") 0 f.lexemes) (p : Predicate)
    (n : Nat) : Lexeme.parts (.word "WHERE") (f ++ token .filter ++ p.fragment none n).lexemes =
      some [f.lexemes, (p.fragment none n).lexemes] := by
  have hword : (token .filter).lexemes = [.word "WHERE"] := by decide
  rw [lexemes_append, lexemes_append, hword, List.append_assoc, List.singleton_append]
  exact Lexeme.parts_two flat_where hf (kept_whole.predicate none p n)

end Sql.Fragment

namespace Update

theorem lexemes_assign (cells : List (String × Value)) (n : Nat) : ∀ f ∈ assign cells n,
    ∃ column name, f.lexemes = [.ident column, .mark .eq, .param name] := by
  induction cells generalizing n with
  | nil => exact fun _ hf => absurd hf List.not_mem_nil
  | cons c cells ih => exact List.forall_mem_cons.mpr ⟨⟨c.1, paramName n, rfl⟩, ih (n + 1)⟩

theorem parts_assign {cells : List (String × Value)} (hne : cells ≠ []) (n : Nat) :
    Lexeme.parts (.mark .comma) (Fragment.commas (assign cells n)).lexemes =
      some ((assign cells n).map Fragment.lexemes) := by
  refine Lexeme.parts_join Lexeme.flat_comma rfl ?_ fun f hf => ?_
  · cases cells with
    | nil => exact absurd rfl hne
    | cons c cells => exact List.cons_ne_nil _ _
  · obtain ⟨column, name, hl⟩ := lexemes_assign cells n f hf
    rw [hl]
    refine Lexeme.whole_of_forall ?_
    simp [Lexeme.Flat, Lexeme.nest]

theorem mapM_assignment? (cells : List (String × Value)) (n : Nat) :
    ((assign cells n).map Fragment.lexemes).mapM Lexeme.assignment? =
      some ((cells.zipIdx n).map fun c => (c.1.1, paramName c.2)) := by
  induction cells generalizing n with
  | nil => rfl
  | cons c cells ih =>
      rw [assign, List.map_cons, List.mapM_cons, ih]
      rfl

/-- An update is read as it was planned. -/
theorem read_statement {u : Update} (hne : u.assignments ≠ []) :
    UpdateText.read u.statement.sql =
      some ⟨u.table, u.assignments.zipIdx.map fun c => (c.1.1, paramName c.2),
        (u.filter.fragment none u.assignments.length).lexemes⟩ := by
  have hread : Lexeme.read u.statement.sql = some u.fragment.lexemes :=
    read_text u.carries_fragment.wellNamed
  have hassign : ∀ f ∈ assign u.assignments 0, Lexeme.Whole (.word "WHERE") 0 f.lexemes := by
    intro f hf
    obtain ⟨column, name, hl⟩ := lexemes_assign u.assignments 0 f hf
    rw [hl]
    refine Lexeme.whole_of_forall ?_
    simp [Lexeme.Flat, Lexeme.nest]
  have hfront : Lexeme.Whole (.word "WHERE") 0 (token .update ++ ident u.table ++ token .set ++
      commas (assign u.assignments 0)).lexemes := by
    refine kept_whole.append ?_ (kept_whole.commas hassign)
    exact kept_whole.append (kept_whole.append (kept_whole.token rfl (.inl rfl))
      (kept_whole.ident u.table)) (kept_whole.token rfl (.inl rfl))
  have hlexemes : (token .update ++ ident u.table ++ token .set ++
      commas (assign u.assignments 0)).lexemes = .word "UPDATE" :: .ident u.table :: .word "SET" ::
        (commas (assign u.assignments 0)).lexemes := by
    have hupdate : (token .update).lexemes = [.word "UPDATE"] := by decide
    have hset : (token .set).lexemes = [.word "SET"] := by decide
    rw [lexemes_append, lexemes_append, lexemes_append, hupdate, hset]
    rfl
  have hparts := parts_where hfront u.filter u.assignments.length
  rw [hlexemes] at hparts
  simp only [UpdateText.read, hread, fragment, Option.bind_eq_bind, Option.bind_some, hparts,
    parts_assign hne, mapM_assignment?]
  rfl

end Update

namespace Delete

/-- A delete is read as it was planned. -/
theorem read_statement (d : Delete) : DeleteText.read d.statement.sql =
    some ⟨d.table, (d.filter.fragment none 0).lexemes⟩ := by
  have hread : Lexeme.read d.statement.sql = some d.fragment.lexemes :=
    read_text d.carries_fragment.wellNamed
  have hfront : Lexeme.Whole (.word "WHERE") 0 (token .deleteFrom ++ ident d.table).lexemes :=
    kept_whole.append (kept_whole.token rfl (.inl rfl)) (kept_whole.ident d.table)
  have hlexemes : (token .deleteFrom ++ ident d.table).lexemes =
      [.word "DELETE", .word "FROM", .ident d.table] := by
    have hdelete : (token .deleteFrom).lexemes = [.word "DELETE", .word "FROM"] := by decide
    rw [lexemes_append, hdelete]
    rfl
  have hparts := parts_where hfront d.filter 0
  rw [hlexemes] at hparts
  simp only [DeleteText.read, hread, fragment, Option.bind_eq_bind, Option.bind_some, hparts]
  rfl

end Delete

/-! ### What was asked -/

/-- The text assigns the cells of the row, the one in place `i` from parameter `i`, where the
condition `g` holds; no other value is bound. -/
structure Update.Says (u : Update) (table : String) (row : Row) (g : Fragment) : Prop where
  text : ∃ condition, Lexeme.read g.text = some condition ∧ UpdateText.read u.statement.sql =
    some ⟨table, row.cells.zipIdx.map fun c => (c.1.1, paramName c.2), condition⟩
  bound : u.statement.params.Binds 0 (row.cells.map (·.2))
  params : u.statement.params = Params.numbered 0 (row.cells.map (·.2)) ++ g.params

/-- The text removes the rows on which the condition `g` holds, and binds what it binds. -/
structure Delete.Says (d : Delete) (table : String) (g : Fragment) : Prop where
  text : ∃ condition, Lexeme.read g.text = some condition ∧
    DeleteText.read d.statement.sql = some ⟨table, condition⟩
  params : d.statement.params = g.params

namespace Registry

variable {r : Registry} {name : String} {f : Option Filter}

theorem update_says {row : Row} {u : Update} (h : r.update name row f = .ok u) :
    ∃ e g, r.get? name = some e ∧ Filter.conditionFrom row.cells.length f = .ok g ∧
      u.Says (r.home.qualify e.table) row g := by
  obtain ⟨e, he, htable, hcells, hp⟩ := update_eq_ok h
  have hne : row.cells ≠ [] :=
    (r.requires_update name row f).ok_iff.mp ⟨u, h⟩ ⟨row.cells ≠ [], .noValues name⟩
      (by simp [updateRequirements])
  have hcarries := u.filter.carries_fragment none row.cells.length
  have hparams : u.statement.params =
      Params.numbered 0 (row.cells.map (·.2) ++ u.filter.values) :=
    hcells ▸ u.carries_fragment.params
  refine ⟨e, u.filter.fragment none row.cells.length, he, ?_, ⟨_, read_text hcarries.wellNamed, ?_⟩,
    ?_, ?_⟩
  · rw [Filter.conditionFrom_eq, hp]
    rfl
  · rw [Update.read_statement (hcells ▸ hne), hcells, htable]
  · rw [hparams]
    exact (Params.binds_numbered 0 _).left
  · rw [hparams, Params.numbered_append, hcarries.params, Nat.zero_add, List.length_map]

theorem delete_says {d : Delete} (h : r.delete name f = .ok d) :
    ∃ e g, r.get? name = some e ∧ Filter.conditionFrom 0 f = .ok g ∧
      d.Says (r.home.qualify e.table) g := by
  obtain ⟨e, he, htable, hp⟩ := delete_eq_ok h
  have hcarries := d.filter.carries_fragment none 0
  refine ⟨e, d.filter.fragment none 0, he, ?_, ⟨_, read_text hcarries.wellNamed, ?_⟩, ?_⟩
  · rw [Filter.conditionFrom_eq, hp]
    rfl
  · rw [d.read_statement, htable]
  · rw [hcarries.params]
    exact d.carries_fragment.params

end Registry

/-- **An update assigns what it was given to the rows its filter is about, and a delete removes
them.**  Each is refused for the first of its requirements that is not met.  Without a filter it is
as with the empty one, and where the filter does not compile there is no statement. -/
theorem changes_as_asked (r : Registry) (name : String) (row : Row) (f : Option Filter) :
    (Requires (r.update name row f) (r.updateRequirements name row f) ∧
      ∀ u, r.update name row f = .ok u → ∃ e g, r.get? name = some e ∧
        Filter.conditionFrom row.cells.length f = .ok g ∧
          u.Says (r.home.qualify e.table) row g) ∧
    (Requires (r.delete name f) (r.deleteRequirements name f) ∧
      ∀ d, r.delete name f = .ok d → ∃ e g, r.get? name = some e ∧
        Filter.conditionFrom 0 f = .ok g ∧ d.Says (r.home.qualify e.table) g) ∧
    (r.update name row none = r.update name row (some []) ∧
      r.delete name none = r.delete name (some [])) ∧
    ∀ n e, Filter.conditionFrom n f = .error e →
      (∀ u, r.update name row f ≠ .ok u) ∧ ∀ d, r.delete name f ≠ .ok d := by
  refine ⟨⟨r.requires_update name row f, fun u => Registry.update_says⟩,
    ⟨r.requires_delete name f, fun d => Registry.delete_says⟩, ⟨rfl, rfl⟩, fun n e he => ?_⟩
  -- whether the filter compiles does not depend on the place
  have hp : Filter.predicateOrAll f = .error e := by
    rw [Filter.conditionFrom_eq] at he
    cases h : Filter.predicateOrAll f with
    | ok p =>
        rw [h] at he
        cases he
    | error e' =>
        rw [h] at he
        cases he
        rfl
  constructor
  · intro u h
    obtain ⟨-, -, -, -, hu⟩ := Registry.update_eq_ok h
    cases hp.symm.trans hu
  · intro d h
    obtain ⟨-, -, -, hd⟩ := Registry.delete_eq_ok h
    cases hp.symm.trans hd

/-- Another title for the books of a filter, and the removal of all.  A row without cells is refused
whatever the filter. -/
theorem changes_as_asked_library :
    (∃ u g, Registry.library.update "book" (.ofList [("title", .string "B")]) (some Filter.titled) =
        .ok u ∧ (Filter.titled.compile none 1).1 = .ok g ∧
      u.Says "book" (.ofList [("title", .string "B")]) g) ∧
    (∃ d, Registry.library.delete "book" none = .ok d ∧ d.Says "book" (.token .true)) ∧
    Registry.library.update "book" .empty (some [("title", .object [])]) =
      .error (.noValues "book") := by
  obtain ⟨⟨-, hupdate⟩, -⟩ := changes_as_asked Registry.library "book"
    (.ofList [("title", .string "B")]) (some Filter.titled)
  obtain ⟨-, ⟨-, hdelete⟩, -⟩ := changes_as_asked Registry.library "book" .empty none
  obtain ⟨⟨hrequires, -⟩, -⟩ := changes_as_asked Registry.library "book" .empty
    (some [("title", .object [])])
  refine ⟨?_, ?_, ?_⟩
  · obtain ⟨e, g, he, hg, hu⟩ := hupdate _ rfl
    cases he.symm.trans (rfl : Registry.library.get? "book" = some _)
    exact ⟨_, g, rfl, hg, hu⟩
  · obtain ⟨e, g, he, hg, hd⟩ := hdelete _ rfl
    cases he.symm.trans (rfl : Registry.library.get? "book" = some _)
    cases hg
    exact ⟨_, rfl, hd⟩
  · refine (hrequires.error_iff _).mpr ⟨[_], _, _, rfl, ?_, fun h => h rfl, rfl⟩
    exact List.forall_mem_singleton.mpr ⟨_, rfl⟩

end RowGraph
