import RowGraph.Proofs.Parameters
import RowGraph.Proofs.Session

/-!
# Proofs — Session — the first of all records

An executor answers every statement by itself (`Executor`), and `Session.ask` is what a call comes
back with if an executor answers it.  An executor pages a select (`Executor.Pages`) if it answers
it, with whatever limit and offset, by that page of its answer to the same select without them.

**A find of one record finds the first of all records** (`Session.findOne_finds_first`).  The two
finds have different limits, but with includes both take the caller's, and without them a limit cuts
records.  Only a limit of zero is not kept: without includes the first record is found nevertheless
(`Session.findOne_of_limit_zero`).

`paging` reads the limit and the offset off the end of a text, so there are executors that page
(`Executor.pages_holding`).
-/

namespace RowGraph

open Sql

/-! ### Executors -/

/-- Answers each statement by itself, whatever else is asked. -/
abbrev Executor := Statement → Answer

/-- The rows behind the offset, up to the limit. -/
def paged (limit offset : Option Nat) (rows : List Row) : List Row :=
  let rest := rows.drop (offset.getD 0)
  limit.elim rest rest.take

/-- The same find without limit and offset. -/
def Select.unpaged (s : Select) : Select := { s with limit := none, offset := none }

/-- The executor answers the select by a page of its answer to the whole. -/
def Executor.Pages (w : Executor) (s : Select) : Prop :=
  ∀ limit offset, w { s with limit, offset }.statement =
    (w s.unpaged.statement).map (paged limit offset)

namespace Session

/-- What a call comes back with, if `w` answers its statement. -/
def ask (s : Session) (w : Executor) (c : Call) : Except CallError Reply :=
  (s.perform c (.ofAnswers ((s.sent [c]).map w))).1.result

/-- The records of a select that `w` answers. -/
def found (s : Session) (w : Executor) (name : String) (o : FindOptions) :
    Except CallError (List Record) := do
  let plan ← (s.registry.select name o).mapError .request
  let rows ← (w plan.statement).mapError .engine
  return plan.shape.records rows

theorem statement_eq (s : Session) (c : Call) :
    s.statement c = (s.request c).map Request.statement := by
  obtain ⟨read, hq⟩ := s.request_eq c
  rw [hq]
  cases s.statement c <;> rfl

theorem ask_select {s : Session} {w : Executor} {c : Call} {name : String} {o : FindOptions}
    {reply : List Record → Reply} (hc : s.request c = s.selectRequest name o reply) :
    s.ask w c = (s.found w name o).map reply := by
  rw [ask, found, perform, hc, selectRequest]
  cases hp : s.registry.select name o with
  | error err => rfl
  | ok plan =>
      have hst : s.statement c = .ok plan.statement := by
        rw [statement_eq, hc, selectRequest, hp]
        rfl
      rw [sent_of_ok hst]
      change (Request.outcome _ (w plan.statement)).result = _
      simp only [Except.mapError, bind, Except.bind]
      cases w plan.statement <;> rfl

theorem ask_findAll (s : Session) (w : Executor) (name : String) (o : FindOptions) :
    s.ask w (.findAll name o) =
      (s.found w name { o with limit := s.findAllLimit o }).map .records :=
  ask_select (by rw [request, findAllOptions_eq])

theorem ask_findOne (s : Session) (w : Executor) (name : String) (o : FindOptions) :
    s.ask w (.findOne name o) =
      (s.found w name { o with limit := findOneLimit o }).map fun rs => .record rs.head? :=
  ask_select (by rw [request, findOneOptions_eq])

end Session

/-! ### Pages -/

/-- Of a plan the limit asked for is the limit, and nothing else. -/
theorem Registry.select_limit (r : Registry) (name : String) (o : FindOptions)
    (limit : Option Nat) :
    r.select name { o with limit } = (r.select name o).map fun plan => { plan with limit } := by
  have h : r.select name { o with limit } =
      (fun plan : Select => { plan with limit }) <$> r.select name o := by
    simp only [select, map_bind, map_pure]
    rfl
  exact h

namespace Session

/-- What a find asks of an executor that pages: a page of the rows of the whole. -/
theorem found_limit {s : Session} {w : Executor} {name : String} {o : FindOptions}
    (hw : ∀ plan, s.registry.select name o = .ok plan → w.Pages plan) (limit : Option Nat) :
    s.found w name { o with limit } = do
      let plan ← (s.registry.select name o).mapError .request
      let rows ← (w plan.unpaged.statement).mapError .engine
      return plan.shape.records (paged limit o.offset rows) := by
  rw [found, Registry.select_limit]
  cases hp : s.registry.select name o with
  | error err => rfl
  | ok plan =>
      obtain ⟨host, hh, -⟩ := Registry.select_eq_ok hp
      obtain ⟨-, -, -, ho⟩ := Registry.clauses_of_select hp hh
      have h : w { plan with limit }.statement =
          (w plan.unpaged.statement).map (paged limit o.offset) := by
        rw [← ho]
        exact hw plan hp limit plan.offset
      simp only [Except.map, Except.mapError, bind, Except.bind, h]
      cases w plan.unpaged.statement <;> rfl

end Session

/-- Without includes a limit that is not zero leaves the first record. -/
theorem Shape.head?_records_paged {s : Shape} (hs : s.includes = []) {limit : Option Nat}
    (hl : limit ≠ some 0) (offset : Option Nat) (rows : List Row) :
    (s.records (paged limit offset rows)).head? = (s.records (paged none offset rows)).head? := by
  have hr (rows : List Row) : (s.records rows).head? = rows.head?.map s.flatRecord := by
    rw [records, hs, List.isEmpty_nil, if_pos rfl, List.head?_map]
  rw [hr, hr]
  cases limit with
  | none => rfl
  | some n =>
      have hn : n ≠ 0 := fun h => hl (by rw [h])
      have ht : (paged (some n) offset rows).head? = (paged none offset rows).head? := by
        simp [paged, List.head?_take, hn]
      rw [ht]

theorem Registry.includes_of_select {r : Registry} {name : String} {o : FindOptions}
    {plan : Select} (h : r.select name o = .ok plan) (ho : o.includes = []) :
    plan.shape.includes = [] := by
  obtain ⟨host, -, -, hs⟩ := select_eq_ok h
  rw [ho] at hs
  obtain ⟨chosen, -, hs⟩ := bind_eq_ok hs
  rw [← Except.ok.inj hs]

/-! ### The first record -/

/-- The same find with a limit of one for a limit of zero, unless there are includes. -/
def FindOptions.atLeastOne (o : FindOptions) : FindOptions :=
  if o.includes = [] ∧ o.limit = some 0 then { o with limit := some 1 } else o

namespace Session

/-- Without includes all limits that are not zero have the same first record, or fail alike. -/
theorem map_head?_found {s : Session} {w : Executor} {name : String} {o : FindOptions}
    (hw : ∀ plan, s.registry.select name o = .ok plan → w.Pages plan) (ho : o.includes = [])
    {limit : Option Nat} (hl : limit ≠ some 0) :
    (s.found w name { o with limit }).map List.head? =
      (s.found w name { o with limit := none }).map List.head? := by
  rw [found_limit hw, found_limit hw]
  cases hp : s.registry.select name o with
  | error err => rfl
  | ok plan =>
      have hs := Registry.includes_of_select hp ho
      simp only [Except.mapError, bind, Except.bind]
      cases w plan.unpaged.statement with
      | error f => rfl
      | ok rows => exact congrArg Except.ok (Shape.head?_records_paged hs hl o.offset rows)

theorem limits_ne_zero {s : Session} (hd : s.config.defaultLimit ≠ some 0) {o : FindOptions}
    (ho : o.includes = []) :
    s.findAllLimit o.atLeastOne ≠ some 0 ∧ findOneLimit o ≠ some 0 := by
  constructor
  · unfold FindOptions.atLeastOne findAllLimit
    by_cases hl : o.limit = some 0
    · simp [ho, hl]
    · cases h : o.limit <;> simp_all
  · simp [findOneLimit, ho]

/-- **A find of one record finds the first of the records that a find of all records finds**, none
if there are none, and fails as it does.  Only a limit of zero is not kept. -/
theorem findOne_finds_first (s : Session) (hd : s.config.defaultLimit ≠ some 0)
    (w : Executor) (name : String) (o : FindOptions)
    (hw : ∀ plan, s.registry.select name o = .ok plan → w.Pages plan) :
    ∃ found : Except CallError (List Record),
      s.ask w (.findAll name o.atLeastOne) = found.map .records ∧
      s.ask w (.findOne name o) = found.map fun rs => .record rs.head? := by
  refine ⟨_, ask_findAll s w name o.atLeastOne, ?_⟩
  rw [ask_findOne]
  by_cases ho : o.includes = []
  · obtain ⟨hall, hone⟩ := limits_ne_zero hd ho
    have ha : { o.atLeastOne with limit := s.findAllLimit o.atLeastOne } =
        { o with limit := s.findAllLimit o.atLeastOne } := by
      unfold FindOptions.atLeastOne
      split <;> rfl
    have hmap (x : Except CallError (List Record)) :
        (x.map fun rs => Reply.record rs.head?) = (x.map List.head?).map .record := by
      cases x <;> rfl
    rw [ha, hmap, hmap, map_head?_found hw ho hone, map_head?_found hw ho hall]
  · -- with includes both finds take the caller's limit
    have ha : o.atLeastOne = o := if_neg fun h => ho h.1
    have hl : findOneLimit o = s.findAllLimit o := by
      simp [findOneLimit, findAllLimit, ho]
    rw [ha, hl]

end Session

/-! ### An executor that pages -/

namespace Sql

/-- The number behind a keyword and what is in front of both, in lexemes read backwards. -/
def Lexeme.numberBehind (keyword : String) : List Lexeme → Option Nat × List Lexeme
  | .word n :: .word k :: rest =>
      if k = keyword then (some (Nat.ofDigitChars 10 n.toList 0), rest)
      else (none, .word n :: .word k :: rest)
  | ls => (none, ls)

/-- The limit and the offset at the end of a text. -/
def paging (text : String) : Option Nat × Option Nat :=
  let offset := Lexeme.numberBehind "OFFSET" ((Lexeme.read text).getD []).reverse
  ((Lexeme.numberBehind "LIMIT" offset.2).1, offset.1)

end Sql

/-- Has these rows for every select, and keeps to the limit and the offset of its text. -/
def Executor.holding (rows : List Row) : Executor := fun st =>
  .ok (paged (paging st.sql).1 (paging st.sql).2 rows)

theorem Select.numberBehind_bound {t : Token} {keyword : String}
    (ht : t.lexemes = [.word keyword]) (n : Option Nat) {rest : List Lexeme}
    (hr : Lexeme.numberBehind keyword rest = (none, rest)) :
    Lexeme.numberBehind keyword ((bound t n).lexemes.reverse ++ rest) = (n, rest) := by
  cases n with
  | none => exact hr
  | some n =>
      have hl : (bound t (some n)).lexemes = t.lexemes ++ [.word (toString n)] := rfl
      rw [hl, ht, List.reverse_append, List.append_assoc]
      change Lexeme.numberBehind keyword (.word (toString n) :: .word keyword :: rest) = _
      rw [Lexeme.numberBehind, if_pos rfl, ofDigitChars_toString]

/-- What a select is paged by stands at the end of its text. -/
theorem Select.paging_statement {s : Select} {name : String}
    (h : s.unpaged.fragment.getLast? = some (.ident name)) (limit offset : Option Nat) :
    paging { s with limit, offset }.statement.sql = (limit, offset) := by
  obtain ⟨f, hf⟩ := List.getLast?_eq_some_iff.mp h
  let front : List Lexeme := .ident name :: (Fragment.lexemes f).reverse
  let behind : List Lexeme := (bound .limit limit).lexemes.reverse ++ front
  have hlimit : Lexeme.numberBehind "LIMIT" behind = (limit, front) :=
    numberBehind_bound (by decide) limit rfl
  have hoffset : Lexeme.numberBehind "OFFSET" ((bound .offset offset).lexemes.reverse ++ behind) =
      (offset, behind) :=
    numberBehind_bound (by decide) offset (by cases limit <;> rfl)
  have hs : { s with limit, offset }.fragment =
      f ++ [.ident name] ++ bound .limit limit ++ bound .offset offset := by
    rw [← hf]
    simp only [fragment, unpaged, bound, List.append_nil]
  have hr : { s with limit, offset }.fragment.lexemes.reverse =
      (bound .offset offset).lexemes.reverse ++ behind := by
    rw [hs]
    simp only [Fragment.lexemes_append, List.reverse_append]
    rfl
  have hw := { s with limit, offset }.carries_fragment.wellNamed
  rw [paging, statement, Fragment.statement, Fragment.read_text hw, Option.getD_some, hr]
  simp only [hoffset, hlimit]

theorem Executor.holding_unpaged {s : Select} {name : String}
    (h : s.unpaged.fragment.getLast? = some (.ident name)) (rows : List Row) :
    Executor.holding rows s.unpaged.statement = .ok rows := by
  have hn : paging s.unpaged.statement.sql = (none, none) := Select.paging_statement h none none
  rw [holding, hn]
  rfl

theorem Executor.pages_holding {s : Select} {name : String}
    (h : s.unpaged.fragment.getLast? = some (.ident name)) (rows : List Row) :
    (Executor.holding rows).Pages s := by
  intro limit offset
  rw [holding_unpaged h, holding, Select.paging_statement h]
  rfl

section

variable {s : Session} {name : String} {o : FindOptions} {plan : Select}
  (h : s.registry.select name o = .ok plan) {k : String}
  (hk : plan.unpaged.fragment.getLast? = some (.ident k)) (rows : List Row)
include h hk

theorem Session.pages_holding :
    ∀ p, s.registry.select name o = .ok p → (Executor.holding rows).Pages p := by
  intro p hp
  cases h.symm.trans hp
  exact Executor.pages_holding hk rows

/-- What an executor finds that has these rows. -/
theorem Session.found_holding (limit : Option Nat) :
    s.found (.holding rows) name { o with limit } =
      .ok (plan.shape.records (paged limit o.offset rows)) := by
  rw [found_limit (pages_holding h hk rows), h]
  simp only [Except.mapError, bind, Except.bind, Executor.holding_unpaged hk]
  rfl

end

namespace Session

/-- The library, of whose books five are found at a time. -/
def atShelf : Session := ⟨.library, { Config.empty with defaultLimit := some 5 }⟩

def shelf : List Row :=
  [.ofList [("book_id", .int64 1), ("book_title", .string "A")],
    .ofList [("book_id", .int64 2), ("book_title", .string "B")]]

def bookA : Record := ⟨[("id", .value (.int64 1)), ("title", .value (.string "A"))]⟩

def bookB : Record := ⟨[("id", .value (.int64 2)), ("title", .value (.string "B"))]⟩

/-- All books but the first. -/
def laterBooks : FindOptions := { FindOptions.all with offset := some 1 }

theorem findOne_finds_first_laterBooks :
    atShelf.config.defaultLimit ≠ some 0 ∧
    (∀ plan, atShelf.registry.select "book" laterBooks = .ok plan →
      (Executor.holding shelf).Pages plan) ∧
    atShelf.ask (.holding shelf) (.findAll "book" laterBooks) = .ok (.records [bookB]) ∧
    atShelf.ask (.holding shelf) (.findOne "book" laterBooks) = .ok (.record (some bookB)) := by
  have hd : atShelf.config.defaultLimit ≠ some 0 := by decide
  have hplan : atShelf.registry.select "book" laterBooks = .ok _ := rfl
  have hw := pages_holding hplan rfl shelf
  have hall : atShelf.ask (.holding shelf) (.findAll "book" laterBooks) =
      .ok (.records [bookB]) := by
    rw [ask_findAll]
    exact congrArg (Except.map Reply.records) (found_holding hplan rfl shelf (some 5))
  obtain ⟨found, hf, hone⟩ :=
    findOne_finds_first atShelf hd (.holding shelf) "book" laterBooks hw
  refine ⟨hd, hw, hall, ?_⟩
  rw [hone]
  have hb := hf.symm.trans hall
  cases found with
  | error e => cases hb
  | ok rs =>
      cases hb
      rfl

/-- No books. -/
def noBooks : FindOptions := { FindOptions.all with limit := some 0 }

/-- A find of one record does not keep to a limit of zero. -/
theorem findOne_of_limit_zero :
    atShelf.config.defaultLimit ≠ some 0 ∧
    (∀ plan, atShelf.registry.select "book" noBooks = .ok plan →
      (Executor.holding shelf).Pages plan) ∧
    atShelf.ask (.holding shelf) (.findAll "book" noBooks) = .ok (.records []) ∧
    atShelf.ask (.holding shelf) (.findOne "book" noBooks) = .ok (.record (some bookA)) := by
  have hplan : atShelf.registry.select "book" noBooks = .ok _ := rfl
  have hfound := found_holding hplan rfl shelf
  refine ⟨by decide, pages_holding hplan rfl shelf, ?_, ?_⟩
  · rw [ask_findAll]
    exact congrArg (Except.map Reply.records) (hfound (some 0))
  · rw [ask_findOne]
    exact congrArg (Except.map fun rs => Reply.record rs.head?) (hfound (some 1))

end Session

end RowGraph
