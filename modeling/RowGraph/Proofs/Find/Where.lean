import RowGraph.Proofs.Filter.Meaning
import RowGraph.Proofs.Find.Sections
import RowGraph.Proofs.Record.Graph

/-!
# Proofs — Find — what a find is left with

A find that is neither grouped nor paged answers with the combinations its joins yield and its
condition keeps (`Select.combinations`).  The condition, which is a section of its own in the
statement (`Select.hasSections_fragment`), is read from its text and evaluated with the parameters
of the statement; a combination is kept if it is true, and not if it is false or unknown.

**A combination is kept exactly if every filter of the find means true on the row of its own table**
(`Select.Planned.keeps_iff`).
-/

namespace RowGraph

open Sql Fragment

/-! ### Evaluating -/

/-- The columns of a combination, each behind the alias of its table. -/
def Combination.scope (c : Combination) (ps : Params) : Scope :=
  ⟨fun q column => q.elim .null fun aliasName => c.cell aliasName column, ps⟩

/-- Is the condition of a find true on a combination?  Without a condition all are kept. -/
def Select.keeps (I : Interpretation) (s : Select) (c : Combination) : Bool :=
  match s.source.condition with
  | none => true
  | some f =>
      (Condition.read f.text).bind (Condition.truth? I (c.scope s.statement.params)) == some .true

/-- What the joins of a find on the entity `name` yield and its condition keeps. -/
def Select.combinations (s : Select) (I : Interpretation) (T : Tables) (name : String) :
    List Combination :=
  ((T name).flatMap fun row => T.run s.source.joins [(s.source.aliasName, some row)]).filter
    (s.keeps I)

/-- The keys of the root in what a find is left with. -/
def Select.rootKeys (s : Select) (I : Interpretation) (T : Tables) (name : String) : List Value :=
  (s.combinations I T name).map (·.cell s.shape.root.aliasName s.shape.root.primaryKey)

/-! ### Fragments with a truth -/

namespace Sql

theorem Truth.all_eq_true {ts : List Truth} : Truth.all ts = .true ↔ ∀ t ∈ ts, t = .true := by
  induction ts with
  | nil => simp [all]
  | cons t ts ih =>
      have h : all (t :: ts) = .true ↔ t = .true ∧ all ts = .true := by
        rw [all, List.foldr_cons, ← all]
        cases t <;> cases all ts <;> simp [and]
      rw [h, ih, List.forall_mem_cons]

namespace Fragment

variable {I : Interpretation} {s : Scope}

/-- The fragment is read as a condition that has the truth. -/
def HasTruth (I : Interpretation) (s : Scope) (f : Fragment) (t : Truth) : Prop :=
  ∃ d, f.ReadsAs d ∧ d.truth? I s = some t

/-- Fragments joined by `AND` have all of their truths together. -/
theorem hasTruth_joinGrouped {fs : List Fragment} {ts : List Truth} (hfs : fs ≠ [])
    (h : List.Forall₂ (HasTruth I s) fs ts) : (joinGrouped .and fs).HasTruth I s (.all ts) := by
  obtain ⟨ds, hreads, htruths⟩ : ∃ ds, List.Forall₂ ReadsAs fs ds ∧
      List.Forall₂ (fun d t => Condition.truth? I s d = some t) ds ts := by
    clear hfs
    induction h with
    | nil => exact ⟨[], .nil, .nil⟩
    | cons hf _ ih =>
        obtain ⟨d, hd, ht⟩ := hf
        obtain ⟨ds, hds, hts⟩ := ih
        exact ⟨d :: ds, .cons hd hds, .cons ht hts⟩
  have hchain := Predicate.truth?_chain .and (by
    rintro rfl
    cases hreads
    exact hfs rfl) htruths
  refine ⟨_, ?_, hchain⟩
  have hmany : (join .and (fs.map parens)).ReadsAs (Connective.and.chain ds) := by
    refine readsAs_join .and (by simpa using hfs) (List.forall₂_map_left_iff.mpr ?_)
    exact hreads.imp fun _ _ hf => ⟨_, rfl, hf⟩
  unfold joinGrouped
  split
  case h_1 f =>
      cases hreads with
      | cons hf hrest =>
          cases hrest
          exact hf
  case h_2 => exact hmany

end Fragment

end Sql

theorem Predicate.hasTruth_fragment (I : Interpretation) (s : Scope) (q : Option String) (n : Nat)
    {p : Predicate} (hp : p.Proper) (hb : s.params.Binds n p.values) :
    (p.fragment q n).HasTruth I s (p.truth I (s.column q)) :=
  ⟨_, readsAs_fragment q n hp, truth?_condition I s q n hp hb⟩

/-! ### The truths of the filters -/

/-- The truths of the filter of a table under an alias, if it has one. -/
def Predicate.truthIn (I : Interpretation) (s : Scope) (aliasName : String)
    (p : Option Predicate) : List Truth :=
  p.toList.map fun p => p.truth I (s.column (some aliasName))

/-- The truths of all filters of a source. -/
def Source.truths (I : Interpretation) (sc : Scope) (s : Source) : List Truth :=
  Predicate.truthIn I sc s.aliasName s.filter ++
    s.joins.flatMap fun j => Predicate.truthIn I sc j.aliasName j.filter

section

variable {I : Interpretation} {sc : Scope}

theorem hasTruth_joinFilters {js : List Join} (hp : ∀ j ∈ js, ∀ p ∈ j.filter, p.Proper) {n : Nat}
    (hb : sc.params.Binds n (js.flatMap Join.values)) :
    List.Forall₂ (HasTruth I sc) ((Join.filterFragments js n).filterMap id)
      (js.flatMap fun j => Predicate.truthIn I sc j.aliasName j.filter) := by
  induction js generalizing n with
  | nil => exact .nil
  | cons j js ih =>
      obtain ⟨hj, hjs⟩ := List.forall_mem_cons.mp hp
      rw [List.flatMap_cons] at hb
      rw [List.flatMap_cons, Join.filterFragments]
      cases hf : j.filter with
      | none =>
          rw [Join.values, hf] at hb
          exact ih hjs hb
      | some p =>
          rw [Join.values, hf] at hb
          exact .cons (p.hasTruth_fragment I sc _ n (hj p hf) hb.left) (ih hjs hb.right)

theorem Source.hasTruth_filterFragments {s : Source} (hp : ∀ p ∈ s.filter, p.Proper)
    (hj : ∀ j ∈ s.joins, ∀ p ∈ j.filter, p.Proper) (hb : sc.params.Binds 0 s.values) :
    List.Forall₂ (HasTruth I sc) s.filterFragments (s.truths I sc) := by
  unfold filterFragments truths
  rw [values] at hb
  cases hf : s.filter with
  | none =>
      rw [hf] at hb
      exact hasTruth_joinFilters hj hb
  | some p =>
      rw [hf] at hb
      have hr := hb.right
      rw [Nat.zero_add] at hr
      exact .cons (p.hasTruth_fragment I sc _ 0 (hp p hf) hb.left) (hasTruth_joinFilters hj hr)

end

/-- A combination is kept if all filters are true on it. -/
theorem Select.keeps_iff {s : Select} (hp : ∀ p ∈ s.source.filter, p.Proper)
    (hj : ∀ j ∈ s.source.joins, ∀ p ∈ j.filter, p.Proper) (I : Interpretation) (c : Combination) :
    s.keeps I c ↔ ∀ t ∈ s.source.truths I (c.scope s.statement.params), t = .true := by
  have hb : (c.scope s.statement.params).params.Binds 0 s.source.values := by
    rw [Combination.scope, statement, Fragment.statement, s.carries_fragment.params]
    exact Params.binds_numbered 0 _
  have hall := s.source.hasTruth_filterFragments (I := I) hp hj hb
  have hcarries := s.source.carryAll_filterFragments
  rw [← Truth.all_eq_true, keeps, Source.condition]
  cases hfs : s.source.filterFragments with
  | nil =>
      rw [hfs, List.forall₂_nil_left_iff] at hall
      simp [hall, Truth.all]
  | cons f fs =>
      rw [hfs] at hall hcarries
      obtain ⟨d, hd, ht⟩ := hasTruth_joinGrouped (List.cons_ne_nil f fs) hall
      have hread := hd.read_text (hcarries.joinGrouped .and).wellNamed
      simp [hread, ht]

/-! ### Filters that mean true -/

namespace Filter

variable {f : Option Filter} {p : Option Predicate} {k : Nat}

theorem proper_of_predicate? (h : (predicate? f).Yields p k) : ∀ q ∈ p, q.Proper := by
  obtain ⟨cs, hcs, hp⟩ := yields_predicate? h
  rintro q rfl
  obtain ⟨-, hq⟩ | ⟨-, hq⟩ := hp
  · cases hq
  · cases hq
    exact proper_conjunction (proper_of_clauses hcs)

/-- The truths of the predicate of a filter put together are the meaning of the filter. -/
theorem meaning_of_predicate? (h : (predicate? f).Yields p k) (I : Interpretation) (sc : Scope)
    (aliasName : String) :
    meaning? I (sc.column (some aliasName)) (f.getD []) =
      some (.all (Predicate.truthIn I sc aliasName p)) := by
  obtain ⟨cs, hcs, hp⟩ := yields_predicate? h
  obtain ⟨hf, rfl⟩ | ⟨-, rfl⟩ := hp
  · rw [hf]
    rfl
  · rw [meaning_of_clauses hcs, ← truth_conjunction]
    exact congrArg some (Truth.and_true _).symm

/-- Does the filter mean true on a row? -/
def Holds (I : Interpretation) (row : String → Value) (f : Option Filter) : Prop :=
  meaning? I row (f.getD []) = some .true

theorem holds_iff (h : (predicate? f).Yields p k) (I : Interpretation) (sc : Scope)
    (aliasName : String) :
    Holds I (sc.column (some aliasName)) f ↔
      ∀ t ∈ Predicate.truthIn I sc aliasName p, t = .true := by
  rw [Holds, meaning_of_predicate? h, Option.some.injEq, Truth.all_eq_true]

/-- A filter that asks for nothing means true. -/
theorem holds_of_not_given (h : ¬ given f) (I : Interpretation) (row : String → Value) :
    Holds I row f := by
  rw [Holds, not_given_iff.mp h]
  rfl

end Filter

namespace Inclusion.Resolved

variable {r : Registry} {host : Entity} {x : Inclusion}

/-- Of the joins of an include the target's has the filter, a link's has none. -/
theorem truths_joins (h : x.Resolved r host) (home : Namespace) (I : Interpretation) (sc : Scope) :
    ((x.joins home host).flatMap fun j => Predicate.truthIn I sc j.aliasName j.filter) =
      Predicate.truthIn I sc x.aliasName x.filter := by
  obtain ⟨ρ, hρ⟩ := h.exists_route
  rw [joins, hρ]
  cases ρ with
  | direct _ _ => exact List.append_nil _
  | linked _ _ => exact List.append_nil _

theorem proper_joins (h : x.Resolved r host) (home : Namespace) :
    ∀ j ∈ x.joins home host, ∀ p ∈ j.filter, p.Proper := by
  obtain ⟨k, hk⟩ := h.filtered
  have hp := Filter.proper_of_predicate? hk
  obtain ⟨ρ, hρ⟩ := h.exists_route
  rw [joins, hρ]
  cases ρ with
  | direct _ _ => simpa [targetJoin] using hp
  | linked _ _ => simpa [targetJoin, linkJoin] using hp

end Inclusion.Resolved

/-- **A combination is kept exactly if the filter of the root means true on the root's row, and the
filter of each include on the row of its target.** -/
theorem Select.Planned.keeps_iff {r : Registry} {name : String} {o : FindOptions} {s : Select}
    {host : Entity} {xs : List Inclusion} (hs : s.Planned r name o host xs)
    (h : r.source host o = .ok s.source) (I : Interpretation) (c : Combination) :
    s.keeps I c ↔ Filter.Holds I (c.cell host.table) o.filter ∧
      ∀ x ∈ xs, Filter.Holds I (c.cell x.aliasName) x.request.filter := by
  obtain ⟨⟨k, hk⟩, -⟩ := Registry.source_eq_ok h
  have hj : ∀ j ∈ s.source.joins, ∀ p ∈ j.filter, p.Proper := by
    rw [hs.joins]
    intro j hj
    obtain ⟨x, hx, hjx⟩ := List.mem_flatMap.mp hj
    exact (hs.resolved x hx).proper_joins r.home j hjx
  have hroot := Filter.holds_iff hk I (c.scope s.statement.params) host.table
  have hincluded : ∀ x ∈ xs, Filter.Holds I (c.cell x.aliasName) x.request.filter ↔
      ∀ t ∈ Predicate.truthIn I (c.scope s.statement.params) x.aliasName x.filter,
        t = .true := by
    intro x hx
    obtain ⟨k, hk⟩ := (hs.resolved x hx).filtered
    exact Filter.holds_iff hk I (c.scope s.statement.params) x.aliasName
  have htruths : (s.source.joins.flatMap fun j => Predicate.truthIn I
      (c.scope s.statement.params) j.aliasName j.filter) =
      xs.flatMap fun x => Predicate.truthIn I (c.scope s.statement.params) x.aliasName
        x.filter := by
    rw [hs.joins, List.flatMap_assoc]
    exact List.flatMap_congr fun x hx => (hs.resolved x hx).truths_joins r.home I _
  rw [Select.keeps_iff (Filter.proper_of_predicate? hk) hj, Source.truths, htruths, hs.sourceAlias,
    List.forall_mem_append, List.forall_mem_flatMap]
  exact and_congr hroot.symm (forall₂_congr fun x hx => (hincluded x hx).symm)

end RowGraph
