import RowGraph.Proofs.Filter.Child
import RowGraph.Proofs.Find.Where
import RowGraph.Proofs.Session

/-!
# Proofs — Session — finding by key

A find by key is a find of one record with a filter for the key (`Session.statement_findByKey`).
Its plan is that of the find of one record, but for the filter of the root (`Select.KeyedFrom`):
that is the equality of the primary key with the first parameter, and where the caller has a filter,
this filter stands behind it as a whole.

**A find by key sends one statement, for the row that has the key and that the caller's filters mean
true on** (`Session.findByKey_sends`).  The filter for the key is made like any other, and so an
entity whose primary key is named `and` or `or` has no find by key: the name is taken for a
combinator (`Session.findByKey_refused`, `Session.findByKey_of_and`).
-/

namespace RowGraph

open Sql Fragment

/-! ### The filter for a key -/

namespace Filter

theorem value?_predicate? {f : Filter} (hf : f ≠ []) :
    (predicate? (some f)).value? = f.predicate.value?.map some := by
  cases f with
  | nil => exact absurd rfl hf
  | cons e f =>
      rw [predicate?, Draw.value?_bind]
      · cases (predicate (e :: f)).value? <;> rfl
      · simp

variable {f : Option Filter} {p : Option Predicate}

theorem eq_none_of_not_given (hf : ¬ given f) (h : (predicate? f).value? = some p) : p = none := by
  rcases f with _ | _ | ⟨e, f⟩
  · exact (Option.some.inj h).symm
  · exact (Option.some.inj h).symm
  · exact absurd rfl hf

/-- A filter that asks for something has the predicate it has by itself. -/
theorem exists_of_given (hf : given f) (h : (predicate? f).value? = some p) :
    ∃ q, (f.getD []).predicate.value? = some q ∧ p = some q := by
  rcases f with _ | _ | ⟨e, f⟩
  · cases hf
  · cases hf
  · rw [value?_predicate? (List.cons_ne_nil e f)] at h
    obtain ⟨q, hq, hp⟩ := Option.map_eq_some_iff.mp h
    exact ⟨q, hq, hp.symm⟩

end Filter

namespace Session

theorem keyFilter_of_not_given (column : String) (key : Value) {f : Option Filter}
    (hf : ¬ Filter.given f) : keyFilter column key f = Filter.eq [] column key := by
  rcases f with _ | _ | ⟨e, f⟩
  · rfl
  · rfl
  · exact absurd rfl hf

theorem keyFilter_of_given (column : String) (key : Value) {f : Option Filter}
    (hf : Filter.given f) :
    keyFilter column key f = Filter.and [] [Filter.eq [] column key, f.getD []] := by
  rcases f with _ | _ | ⟨e, f⟩
  · cases hf
  · cases hf
  · rfl

theorem keyFilter_ne_nil (column : String) (key : Value) (f : Option Filter) :
    keyFilter column key f ≠ [] := by
  by_cases hf : Filter.given f
  · rw [keyFilter_of_given column key hf]
    exact List.cons_ne_nil _ _
  · rw [keyFilter_of_not_given column key hf]
    exact List.cons_ne_nil _ _

end Session

namespace Predicate

/-- The key, and what is asked for besides. -/
def keyed (column : String) (key : Value) : Option Predicate → Predicate
  | none => .compare column .eq key
  | some p => .junction .and [.compare column .eq key, p]

end Predicate

namespace Session

variable {column : String} {key : Value}

theorem predicate?_keyFilter (hc : Filter.connective? column = none) (hn : key.isNull = false)
    (ha : ∀ vs, key ≠ .array vs) {f : Option Filter} {p : Option Predicate}
    (h : (Filter.predicate? f).value? = some p) :
    (Filter.predicate? (some (keyFilter column key f))).value? =
      some (some (.keyed column key p)) := by
  have hkey := Filter.value?_eq hn ha hc
  rw [Filter.value?_predicate? (keyFilter_ne_nil column key f)]
  by_cases hf : Filter.given f
  · obtain ⟨q, hq, rfl⟩ := Filter.exists_of_given hf h
    rw [keyFilter_of_given column key hf, Filter.value?_and]
    simp only [List.mapM_cons, List.mapM_nil, hkey, hq]
    rfl
  · obtain rfl := Filter.eq_none_of_not_given hf h
    rw [keyFilter_of_not_given column key hf, hkey]
    rfl

/-- A column that is named as a combinator takes no key. -/
theorem predicate?_keyFilter_of_connective {k : Connective}
    (hc : Filter.connective? column = some k) (ha : ∀ vs, key ≠ .array vs) (f : Option Filter) :
    (Filter.predicate? (some (keyFilter column key f))).value? = none := by
  have hkey := Filter.value?_eq_of_connective ha hc
  rw [Filter.value?_predicate? (keyFilter_ne_nil column key f), Option.map_eq_none_iff]
  by_cases hf : Filter.given f
  · rw [keyFilter_of_given column key hf, Filter.value?_and]
    simp [hkey]
  · rw [keyFilter_of_not_given column key hf, hkey]

theorem holds_keyFilter (hn : key.isNull = false) (ha : ∀ vs, key ≠ .array vs)
    (I : Interpretation) (row : String → Value) (f : Option Filter) :
    Filter.Holds I row (some (keyFilter column key f)) ↔
      I.compare .eq (row column) key = .true ∧ Filter.Holds I row f := by
  have hkey : Filter.meaning? I row (Filter.eq [] column key) =
      some (I.compare .eq (row column) key) := Filter.meaning?_eq hn ha I row
  by_cases hf : Filter.given f
  · rw [keyFilter_of_given column key hf, Filter.Holds, Filter.Holds, Option.getD_some,
      Filter.meaning?_and]
    simp only [List.mapM_cons, List.mapM_nil, hkey]
    cases Filter.meaning? I row (f.getD []) with
    | none => simp
    | some t =>
        have h : Truth.all [I.compare .eq (row column) key, t] = .true ↔ _ := Truth.all_eq_true
        simpa using h
  · have h := Filter.holds_of_not_given hf I row
    rw [keyFilter_of_not_given column key hf, Filter.Holds, Option.getD_some, hkey]
    simp [h]

end Session

/-! ### The plan of a find by key -/

/-- The equality of the primary key with a key that is the first parameter. -/
def Entity.keyEquality (host : Entity) (key : Value) : Fragment :=
  .column (some host.table) host.primaryKey ++ .token .eq ++ .param 0 key

theorem Registry.source_filter {r : Registry} {host : Entity} {o : FindOptions} {s : Source}
    (h : r.source host o = .ok s) {f : Option Filter} {p : Option Predicate}
    (hf : (Filter.predicate? f).result = .ok p) :
    r.source host { o with filter := f } = .ok { s with filter := p } := by
  unfold source at h ⊢
  split at h
  · cases h
  case isFalse ha =>
      obtain ⟨filter, -, h⟩ := bind_eq_ok h
      obtain ⟨joins, hj, h⟩ := bind_eq_ok h
      obtain ⟨_, hd, h⟩ := bind_eq_ok h
      cases h
      rw [if_neg ha, hf, hj]
      simp only [bind, Except.bind, hd]
      rfl

theorem Registry.select_filter {r : Registry} {name : String} {o : FindOptions} {plan : Select}
    (h : r.select name o = .ok plan) {f : Option Filter} {p : Option Predicate}
    (hf : (Filter.predicate? f).result = .ok p) :
    r.select name { o with filter := f } =
      .ok { plan with source := { plan.source with filter := p } } := by
  obtain ⟨host, hh, h⟩ := bind_eq_ok h
  obtain ⟨source, hs, h⟩ := bind_eq_ok h
  obtain ⟨shape, hp, h⟩ := bind_eq_ok h
  obtain ⟨group, hg, h⟩ := bind_eq_ok h
  obtain ⟨order, ho, h⟩ := bind_eq_ok h
  cases h
  have hs' := source_filter hs hf
  simp only [bind, Except.bind] at ho
  simp only [select, bind, Except.bind, hh, hs', hp, hg, ho]
  rfl

/-- A find by key asks for `keyed` where a find of one record asks for `plan`. -/
structure Select.KeyedFrom (plan : Select) (host : Entity) (key : Value) (f : Option Filter)
    (keyed : Select) : Prop where
  /-- Nothing but the filter of the root is another. -/
  rest : keyed = { plan with source := { plan.source with filter := keyed.source.filter } }
  /-- Without a filter of the caller that asks for something it is the equality with the key. -/
  bare (h : ¬ Filter.given f) : keyed.source.filterFragments.head? = some (host.keyEquality key)
  /-- Otherwise the caller's filter as a whole stands behind it, numbered on from the key. -/
  both (h : Filter.given f) : ∃ own, ((f.getD []).compile (some host.table) 1).1 = .ok own ∧
    keyed.source.filterFragments.head? =
      some ((host.keyEquality key).parens ++ .token .and ++ own.parens)

theorem Select.keyedFrom {plan : Select} {host : Entity} (hs : plan.source.aliasName = host.table)
    {key : Value} {f : Option Filter} (h : (Filter.predicate? f).value? = some plan.source.filter) :
    plan.KeyedFrom host key f { plan with source := { plan.source with
      filter := some (.keyed host.primaryKey key plan.source.filter) } } where
  rest := rfl
  bare hf := by
    rw [Filter.eq_none_of_not_given hf h, Source.filterFragments, List.head?_cons, hs]
    rfl
  both hf := by
    obtain ⟨q, hq, hp⟩ := Filter.exists_of_given hf h
    refine ⟨q.fragment (some host.table) 1, ?_, ?_⟩
    · rw [Filter.compile_eq, Draw.value?_eq_some.mp hq]
      rfl
    · rw [hp, Source.filterFragments, List.head?_cons, hs]
      rfl

/-- Another root filter leaves everything else of a plan as it is. -/
theorem Select.Planned.withFilter {r : Registry} {name : String} {o : FindOptions} {plan : Select}
    {host : Entity} {xs : List Inclusion} (h : plan.Planned r name o host xs) (f : Option Filter)
    (p : Option Predicate) :
    Select.Planned r name { o with filter := f }
      { plan with source := { plan.source with filter := p } } host xs :=
  ⟨h.found, h.requests, h.resolved, h.joins, h.sourceAlias, h.rootAlias, h.rootKey, h.rootColumns,
    h.includes, h.columns, h.aliases⟩

namespace Session

theorem findOneOptions_filter (o : FindOptions) (f : Option Filter) :
    findOneOptions { o with filter := f } = { findOneOptions o with filter := f } := by
  unfold findOneOptions
  split <;> rfl

theorem statement_findOne {s : Session} {name : String} {o : FindOptions} {plan : Select}
    (h : s.registry.select name (findOneOptions o) = .ok plan) :
    s.statement (.findOne name o) = .ok plan.statement := by
  rw [statement, ← findOneOptions_eq, h]
  rfl

/-- A find by key is a find of one record with the filter for the key. -/
theorem statement_findByKey {s : Session} {name : String} {host : Entity}
    (hh : s.registry.get? name = some host) (key : Value) (o : FindOptions) :
    s.statement (.findByKey name key o) = s.statement
      (.findOne name { o with filter := some (keyFilter host.primaryKey key o.filter) }) := by
  have he : s.registry.entity name = .ok host := by rw [Registry.entity, hh]
  simp only [statement, he]
  rfl

/-- **A find by key sends one statement, which asks for the key and for all that the find of one
record asks for.** -/
theorem findByKey_sends {s : Session} {name : String} {host : Entity}
    (hh : s.registry.get? name = some host) (hc : Filter.connective? host.primaryKey = none)
    {key : Value} (hn : key.isNull = false) (ha : ∀ vs, key ≠ .array vs) {o : FindOptions}
    {plan : Select} (h : s.registry.select name (findOneOptions o) = .ok plan) :
    ∃ keyed xs, plan.KeyedFrom host key o.filter keyed ∧
      s.statement (.findOne name o) = .ok plan.statement ∧
      (∀ e, (s.perform (.findByKey name key o) e).2 = e.given [keyed.statement]) ∧
      plan.Planned s.registry name (findOneOptions o) host xs ∧
      ∀ I c, keyed.keeps I c ↔
        I.compare .eq (c.cell host.table host.primaryKey) key = .true ∧
          Filter.Holds I (c.cell host.table) o.filter ∧
          ∀ x ∈ xs, Filter.Holds I (c.cell x.aliasName) x.request.filter := by
  obtain ⟨host', xs, hplanned⟩ := Registry.planned_of_select h
  cases hplanned.found.symm.trans hh
  obtain ⟨host', hh', hsource, -⟩ := Registry.select_eq_ok h
  cases hh'.symm.trans hh
  have hown : (Filter.predicate? o.filter).value? = some plan.source.filter := by
    obtain ⟨⟨k, hk⟩, -⟩ := Registry.source_eq_ok hsource
    rw [findOneOptions_eq] at hk
    rw [Draw.value?_eq_some, hk]
  have hkeyed := Draw.value?_eq_some.mp (predicate?_keyFilter hc hn ha hown)
  refine ⟨_, xs, Select.keyedFrom hplanned.sourceAlias hown, statement_findOne h, fun e => ?_,
    hplanned, fun I c => ?_⟩
  · have hst := statement_findByKey hh key o
    rw [statement_findOne (by
      rw [findOneOptions_filter]
      exact Registry.select_filter h hkeyed)] at hst
    rw [perform_eq, sent_of_ok hst]
  · rw [(hplanned.withFilter _ _).keeps_iff (Registry.source_filter hsource hkeyed),
      holds_keyFilter hn ha, and_assoc]

/-- The titled books, of which the one with a key is wanted. -/
def titledBooks : FindOptions := { FindOptions.all with filter := some Filter.titled }

def bookFive : Combination := [("book", some (.ofList [("id", .int64 5), ("title", .string "B")]))]

def bookSix : Combination := [("book", some (.ofList [("id", .int64 6), ("title", .string "A")]))]

theorem findByKey_sends_titledBooks :
    ∃ (keyed : Select) (own : Fragment), Filter.titled.compile (some "book") 1 = (.ok own, 4) ∧
      keyed.source.filterFragments.head? =
        some ((Fragment.column (some "book") "id" ++ .token .eq ++ .param 0 (.int64 5)).parens ++
          .token .and ++ own.parens) ∧
      (atLibrary.perform (.findByKey "book" (.int64 5) titledBooks) (.ofAnswers [])).2 =
        ⟨[], [keyed.statement]⟩ ∧
      keyed.keeps Filter.integers bookFive = true ∧
      keyed.keeps Filter.integers bookSix = false := by
  have hbook : atLibrary.registry.get? "book" = some _ := rfl
  have hn : (Value.int64 5).isNull = false := rfl
  have hplan : atLibrary.registry.select "book" (findOneOptions titledBooks) = .ok _ := rfl
  obtain ⟨keyed, xs, hkeyed, -, hsent, hxs, hkeeps⟩ :=
    findByKey_sends hbook rfl hn (by simp) hplan
  obtain ⟨own, hown, hroot⟩ := hkeyed.both rfl
  have hnone : xs = [] := List.map_eq_nil_iff.mp hxs.requests
  refine ⟨keyed, own, ?_, hroot, hsent _, ?_, ?_⟩
  · exact Prod.ext hown rfl
  · rw [hkeeps]
    subst hnone
    exact ⟨rfl, rfl, by simp⟩
  · rw [Bool.eq_false_iff, Ne, hkeeps]
    rintro ⟨h, -⟩
    cases h

/-! ### Keys named as combinators -/

/-- A primary key that is named as a combinator is taken for one, and nothing is sent. -/
theorem findByKey_refused {s : Session} {name : String} {host : Entity}
    (hh : s.registry.get? name = some host) {k : Connective}
    (hc : Filter.connective? host.primaryKey = some k) {key : Value}
    (ha : ∀ vs, key ≠ .array vs) (o : FindOptions) :
    ∃ err, ∀ e, s.perform (.findByKey name key o) e = (⟨.error (.request err), []⟩, e) := by
  have hnone := predicate?_keyFilter_of_connective hc ha o.filter
  obtain ⟨err, herr⟩ : ∃ err, s.statement (.findByKey name key o) = .error err := by
    rw [statement_findByKey hh, statement]
    cases hp : s.registry.select name _ with
    | error err => exact ⟨err, rfl⟩
    | ok plan =>
        obtain ⟨host', -, hsource, -⟩ := Registry.select_eq_ok hp
        obtain ⟨⟨n, hn⟩, -⟩ := Registry.source_eq_ok hsource
        rw [Draw.value?, hn] at hnone
        cases hnone
  exact ⟨err, fun e => by
    rw [perform_eq, respond_of_error herr, sent_of_error herr, Engine.given_nil]⟩

/-- Statements of logic, told apart by the column `and`. -/
def logic : Session :=
  ⟨⟨.empty, [((Declaration.start "law").withPrimaryKey "and").entity], by decide⟩, .empty⟩

theorem findByKey_of_and :
    logic.registry.Reached ∧
    (∃ plan, logic.registry.select "law" (findOneOptions .all) = .ok plan) ∧
    ∀ e, logic.perform (.findByKey "law" (.int64 1) .all) e =
      (⟨.error (.request (.filterShape "and" .combinatorWithoutSequence)), []⟩, e) := by
  refine ⟨?_, ⟨_, rfl⟩, fun e => rfl⟩
  exact .define (d := (Declaration.start "law").withPrimaryKey "and") (.empty .empty) rfl

end Session

end RowGraph
