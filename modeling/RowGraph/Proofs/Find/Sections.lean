import RowGraph.Proofs.Find.Query
import RowGraph.Proofs.Scoped

/-!
# Proofs — Find — the sections of a find

The statement of a find is cut into the sections of its query (`Select.hasSections_fragment`), since
neither columns nor tables nor filters are cut.  So **what was asked for is read back from the
statement** (`select_reads_back`), whatever the filters are, and its parentheses are balanced.
-/

namespace RowGraph

open Sql Fragment

/-! ### The query of a plan -/

def Join.head (j : Join) : JoinHead := ⟨j.kind, j.table, j.aliasName, j.left, j.right⟩

/-- The filters as one condition, if there are any. -/
def Source.condition (s : Source) : Option Fragment :=
  match s.filterFragments with
  | [] => none
  | fs => some (joinGrouped .and fs)

namespace Select

/-- The columns read, each with its label. -/
def labelled (s : Select) : List (TableColumn × String) :=
  s.shape.tables.flatMap fun t => t.columns.map fun c => (⟨t.aliasName, c⟩, t.label c)

def query (s : Select) : Query :=
  ⟨s.labelled, s.source.table, s.source.aliasName, s.source.joins.map Join.head,
    s.source.condition, s.group, s.order, s.limit, s.offset⟩

end Select

namespace Sql.Fragment

section

variable {P : Fragment → Prop} (hP : Kept P)
include hP

theorem Kept.tableColumn (c : TableColumn) : P c.fragment := hP.column (some c.aliasName) c.column

theorem Kept.named (table aliasName : String) : P (Query.named table aliasName) :=
  hP.append (hP.append (hP.ident table) (hP.token rfl (.inl rfl))) (hP.ident aliasName)

theorem Kept.labelled (c : TableColumn × String) : P (Query.labelled c) :=
  hP.append (hP.append (hP.tableColumn c.1) (hP.token rfl (.inl rfl))) (hP.ident c.2)

theorem Kept.orderTerm (t : TableColumn × Direction) : P (Select.orderTerm t) := by
  have ht : P (Fragment.token t.2.token) := by cases t.2 <;> exact hP.token rfl (.inl rfl)
  exact hP.append (hP.tableColumn t.1) ht

theorem Kept.joinHead (j : JoinHead) : P j.fragment := by
  have hon := hP.append (hP.named j.table j.aliasName) (hP.token (t := .on) rfl (.inl rfl))
  have heq := hP.append (hP.append hon (hP.tableColumn j.left)) (hP.token (t := .eq) rfl (.inl rfl))
  exact hP.append heq (hP.tableColumn j.right)

theorem Kept.joinFilters : ∀ (js : List Join) (n : Nat), ∀ f ∈ Join.filterFragments js n,
    ∀ g ∈ f, P g
  | [], _ => fun _ hf => absurd hf List.not_mem_nil
  | j :: js, n => by
      rw [Join.filterFragments]
      split
      case h_1 p _ =>
          refine List.forall_mem_cons.mpr ⟨fun g hg => ?_, joinFilters js (n + p.size)⟩
          cases hg
          exact hP.predicate (some j.aliasName) p n
      case h_2 =>
          exact List.forall_mem_cons.mpr ⟨fun _ hg => (by cases hg), joinFilters js n⟩

theorem Kept.filterFragments (s : Source) : ∀ f ∈ s.filterFragments, P f := by
  have hj (n : Nat) : ∀ f ∈ (Join.filterFragments s.joins n).filterMap id, P f := by
    intro f hf
    obtain ⟨g, hg, hfg⟩ := List.mem_filterMap.mp hf
    exact hP.joinFilters s.joins n g hg f hfg
  unfold Source.filterFragments
  split
  case h_1 p _ =>
      exact List.forall_mem_cons.mpr ⟨hP.predicate (some s.aliasName) p 0, hj p.size⟩
  case h_2 => exact hj 0

theorem Kept.condition (s : Source) : ∀ f ∈ s.condition, P f := by
  intro f hf
  unfold Source.condition at hf
  split at hf
  case h_1 => cases hf
  case h_2 =>
      cases hf
      exact hP.joinGrouped (hP.token rfl (.inl rfl)) (hP.filterFragments s)

theorem Kept.listed {fs : List Fragment} (h : ∀ f ∈ fs, P f) : ∀ f ∈ Query.listed fs, P f := by
  intro f hf
  cases fs with
  | nil => cases hf
  | cons g fs =>
      cases hf
      exact hP.commas h

end

theorem hasSections_part {t : Token} (ht : t.begins) {x : Option Fragment}
    (hx : ∀ f ∈ x, Uncut f) : HasSections (x.elim [] (token t ++ ·)) (Query.part t x) := by
  cases x with
  | none => exact hasSections_nil
  | some f => exact Uncut.hasSections ht (hx f rfl)

end Sql.Fragment

namespace Join

theorem fragment_eq (j : Join) : j.fragment = token j.kind.token ++ j.head.fragment := by
  simp only [fragment, JoinHead.fragment, head, Query.named, List.append_assoc]

theorem hasSections_fragment (j : Join) :
    j.fragment.HasSections [(j.head.kind.token, j.head.fragment)] := by
  have ht : j.kind.token.begins := by cases j.kind <;> rfl
  rw [fragment_eq]
  exact (kept_uncut.joinHead j.head).hasSections ht

end Join

theorem Source.whereClause_eq (s : Source) :
    whereClause s.filterFragments = s.condition.elim [] (token .filter ++ ·) := by
  unfold condition
  cases s.filterFragments <;> rfl

namespace Select

theorem clause_eq (keyword : Token) (fs : List Fragment) :
    clause keyword fs = (Query.listed fs).elim [] (token keyword ++ ·) := by
  cases fs <;> rfl

theorem bound_eq (keyword : Token) (n : Option Nat) :
    bound keyword n = (n.map fun n => ([.number n] : Fragment)).elim [] (token keyword ++ ·) := by
  cases n <;> rfl

theorem projection_eq (s : Select) :
    s.shape.tables.flatMap projection = s.labelled.map Query.labelled := by
  rw [labelled, List.map_flatMap]
  refine List.flatMap_congr fun t _ => ?_
  rw [List.map_map]
  rfl

/-- A source is cut into its table, its joins and its condition. -/
theorem hasSections_source (s : Source) : s.fragment.HasSections
    ((.fromTable, Query.named s.table s.aliasName) ::
      (s.joins.map Join.head).map (fun j => (j.kind.token, j.fragment)) ++
        Query.part .filter s.condition) := by
  have hfrom : HasSections (token .fromTable ++ Query.named s.table s.aliasName)
      [(.fromTable, Query.named s.table s.aliasName)] :=
    (kept_uncut.named s.table s.aliasName).hasSections rfl
  have hjoins := hasSections_flatMap fun j (_ : j ∈ s.joins) => j.hasSections_fragment
  have hwhere := hasSections_part (t := .filter) rfl (kept_uncut.condition s)
  have h := (hfrom.append hjoins).append hwhere
  rw [← s.whereClause_eq, ← List.map_eq_flatMap] at h
  rw [Source.fragment, List.map_map]
  simpa [Query.named, List.append_assoc, Function.comp_def] using h

/-- **The statement of a find is cut into the sections of its query.** -/
theorem hasSections_fragment (s : Select) : s.fragment.HasSections s.query.sections := by
  have hselect : HasSections (token .select ++ commas (s.shape.tables.flatMap projection))
      [(.select, commas (s.labelled.map Query.labelled))] := by
    rw [s.projection_eq]
    have hlabelled : ∀ f ∈ s.labelled.map Query.labelled, Uncut f :=
      List.forall_mem_map.mpr fun c _ => kept_uncut.labelled c
    exact (kept_uncut.commas hlabelled).hasSections rfl
  have hlisted {α : Type} {write : α → Fragment} (hw : ∀ a, Uncut (write a)) (as : List α) :
      ∀ f ∈ Query.listed (as.map write), Uncut f :=
    kept_uncut.listed (List.forall_mem_map.mpr fun a _ => hw a)
  have hgroup := hasSections_part (t := .groupBy) rfl (hlisted kept_uncut.tableColumn s.group)
  have horder := hasSections_part (t := .orderBy) rfl (hlisted kept_uncut.orderTerm s.order)
  have hnumber (n : Option Nat) : ∀ f ∈ n.map fun n => ([.number n] : Fragment), Uncut f := by
    intro f hf
    obtain ⟨k, -, rfl⟩ := Option.map_eq_some_iff.mp hf
    exact uncut_chunk (fun _ => rfl) fun _ => rfl
  have hlimit := hasSections_part (t := .limit) rfl (hnumber s.limit)
  have hoffset := hasSections_part (t := .offset) rfl (hnumber s.offset)
  rw [← clause_eq] at hgroup horder
  rw [← bound_eq] at hlimit hoffset
  have h := ((((hselect.append (hasSections_source s.source)).append hgroup).append horder).append
    hlimit).append hoffset
  simpa [fragment, Query.sections, Query.tail, query] using h

end Select

/-! ### The keywords of a find -/

/-- The keywords of a find, with those that stand only where there is something to say. -/
def findKeywords (joins : List Token) (filtered grouped ordered limited moved : Bool) :
    List Token :=
  .select :: .fromTable :: joins ++ (if filtered then [.filter] else []) ++
    (if grouped then [.groupBy] else []) ++ (if ordered then [.orderBy] else []) ++
    (if limited then [.limit] else []) ++ if moved then [.offset] else []

namespace Query

theorem map_part (t : Token) (f : Option Fragment) :
    (part t f).map (·.1) = if f.isSome then [t] else [] := by
  cases f <;> rfl

theorem isSome_listed (fs : List Fragment) : (listed fs).isSome = !fs.isEmpty := by
  cases fs <;> rfl

theorem keywords_sections (q : Query) : q.sections.map (·.1) =
    findKeywords (q.joins.map (·.kind.token)) q.condition.isSome (!q.group.isEmpty)
      (!q.order.isEmpty) q.limit.isSome q.offset.isSome := by
  simp only [sections, tail, findKeywords, List.map_cons, List.map_append, List.map_map, map_part,
    isSome_listed, List.isEmpty_map, Option.isSome_map, List.cons_append, List.append_assoc,
    Function.comp_def]

end Query

/-- Does a filter ask for anything? -/
def Filter.given : Option Filter → Bool
  | none | some [] => false
  | some (_ :: _) => true

/-- Does any filter of a find ask for anything? -/
def FindOptions.filtered (o : FindOptions) : Bool :=
  Filter.given o.filter || o.includes.any fun i => Filter.given i.filter

/-- The keywords of a find in their order, with a join for each include, or two if it is linked. -/
def FindOptions.keywords (o : FindOptions) (xs : List Inclusion) : List Token :=
  findKeywords
    (xs.flatMap fun x => .replicate (if x.association.kind = .belongsToMany then 2 else 1)
      (if x.request.required then .innerJoin else .leftOuterJoin))
    o.filtered (!o.group.isEmpty) (!o.order.isEmpty) o.limit.isSome o.offset.isSome

theorem Filter.not_given_iff {f : Option Filter} : ¬ given f ↔ f.getD [] = [] := by
  rcases f with _ | _ | ⟨e, f⟩ <;> simp [given]

theorem Filter.eq_none_of_predicate? {f : Option Filter} {p : Option Predicate} {k : Nat}
    (h : (predicate? f).Yields p k) : p = none ↔ ¬ given f := by
  obtain ⟨cs, -, hp⟩ := yields_predicate? h
  rw [not_given_iff]
  obtain ⟨hf, rfl⟩ | ⟨hf, rfl⟩ := hp <;> simp [hf]

theorem Join.filterFragments_eq_nil (js : List Join) (n : Nat) :
    (filterFragments js n).filterMap id = [] ↔ ∀ j ∈ js, j.filter = none := by
  induction js generalizing n with
  | nil => simp [filterFragments]
  | cons j js ih =>
      cases hf : j.filter with
      | some p => simp [filterFragments, hf]
      | none => simpa [filterFragments, hf] using ih n

theorem Source.condition_eq_none {s : Source} :
    s.condition = none ↔ s.filter = none ∧ ∀ j ∈ s.joins, j.filter = none := by
  have hc : s.condition = none ↔ s.filterFragments = [] := by
    rw [condition]
    cases s.filterFragments <;> simp
  rw [hc, filterFragments]
  cases s.filter with
  | none => simpa using Join.filterFragments_eq_nil s.joins 0
  | some p => simp

theorem Inclusion.Resolved.unfiltered_iff {r : Registry} {host : Entity} {x : Inclusion}
    (h : x.Resolved r host) (home : Namespace) :
    (∀ j ∈ x.joins home host, j.filter = none) ↔ ¬ Filter.given x.request.filter := by
  obtain ⟨k, hk⟩ := h.filtered
  obtain ⟨ρ, hρ⟩ := h.exists_route
  rw [← Filter.eq_none_of_predicate? hk, joins, hρ]
  cases ρ with
  | direct _ _ => simp [targetJoin]
  | linked _ _ => simp [targetJoin, linkJoin]

namespace Select.Planned

variable {r : Registry} {name : String} {o : FindOptions} {s : Select} {host : Entity}
  {xs : List Inclusion}

theorem isSome_condition (h : s.Planned r name o host xs) (hs : r.source host o = .ok s.source) :
    s.source.condition.isSome = o.filtered := by
  obtain ⟨⟨k, hk⟩, -⟩ := Registry.source_eq_ok hs
  have hn : s.source.condition = none ↔ ¬ o.filtered := by
    have hx : (∀ x ∈ xs, ∀ j ∈ x.joins r.home host, j.filter = none) ↔
        ∀ x ∈ xs, ¬ Filter.given x.request.filter :=
      forall₂_congr fun x hx => (h.resolved x hx).unfiltered_iff r.home
    rw [Source.condition_eq_none, Filter.eq_none_of_predicate? hk, h.joins, FindOptions.filtered,
      ← h.requests]
    simp only [List.mem_flatMap, forall_exists_index, and_imp, Bool.or_eq_true, List.any_map,
      List.any_eq_true, not_or, not_exists, not_and, Function.comp_apply]
    rw [← hx]
    exact and_congr_right' ⟨fun h x hx j hj => h j x hx hj, fun h j x hx hj => h x hx j hj⟩
  cases hc : s.source.condition with
  | none => simpa using (hn.mp hc)
  | some f => simpa [hc] using hn

/-- The joins of an inclusion are of the kind asked for, the link's in front. -/
theorem keywords_joins (h : s.Planned r name o host xs) :
    (s.source.joins.map Join.head).map (·.kind.token) = xs.flatMap fun x =>
      .replicate (if x.association.kind = .belongsToMany then 2 else 1)
        (if x.request.required then .innerJoin else .leftOuterJoin) := by
  rw [h.joins, List.map_map, List.map_flatMap]
  refine List.flatMap_congr fun x hx => ?_
  have hk : x.kind.token = if x.request.required then .innerJoin else .leftOuterJoin := by
    rw [Inclusion.kind, JoinKind.ofRequired]
    cases x.request.required <;> rfl
  have hl := (h.resolved x hx).linked
  rw [← hk, Inclusion.joins, Inclusion.route]
  cases ha : x.association.kind with
  | belongsToMany =>
      obtain ⟨l, hl, -⟩ := hl ha
      rw [hl]
      rfl
  | belongsTo | hasOne | hasMany => rfl

end Select.Planned

/-- **What was asked for is read back from the statement of a find.** -/
theorem select_reads_back {r : Registry} {name : String} {o : FindOptions} {s : Select}
    (h : r.select name o = .ok s) :
    ∃ host xs ss, s.Planned r name o host xs ∧ s.fragment.sections = some ss ∧
      s.fragment.Balanced ∧ (∀ p ∈ ss, p.2.Balanced) ∧ ss.map (·.1) = o.keywords xs ∧
      Query.read ss = some
        { columns := s.shape.tables.flatMap fun t => t.columns.map fun c =>
            (⟨t.aliasName, c⟩, t.label c)
          table := r.home.qualify host.table
          aliasName := host.table
          joins := (xs.flatMap (Inclusion.joins r.home host)).map Join.head
          condition := s.source.condition
          group := o.group.map (·.on host)
          order := o.order.map fun t => (t.column.on host, t.direction)
          limit := o.limit
          offset := o.offset } := by
  obtain ⟨host, xs, hs⟩ := Registry.planned_of_select h
  obtain ⟨host', hh, hsource, -⟩ := Registry.select_eq_ok h
  cases hs.found.symm.trans hh
  obtain ⟨hgroup, horder, hlimit, hoffset⟩ := Registry.clauses_of_select h hh
  have hg := eq_map_of_mapM_eq_ok (fun _ _ => Registry.resolve_eq_ok) hgroup
  have ho := eq_map_of_mapM_eq_ok (g := fun t => (t.column.on host, t.direction))
    (fun t b hb => by
      obtain ⟨c, hc, hb⟩ := bind_eq_ok hb
      cases hb
      rw [Registry.resolve_eq_ok hc]) horder
  have hsections := s.hasSections_fragment.sections
  obtain ⟨hbalanced, hparts⟩ := balanced_of_sections hsections
  have hcolumns : s.labelled ≠ [] := by
    have hk := (hs.keyed _ List.mem_cons_self).key_mem
    exact List.ne_nil_of_mem (List.mem_flatMap.mpr
      ⟨_, List.mem_cons_self, List.mem_map.mpr ⟨_, hk, rfl⟩⟩)
  refine ⟨host, xs, _, hs, hsections, hbalanced, hparts, ?_, ?_⟩
  · rw [Query.keywords_sections, FindOptions.keywords, ← hs.keywords_joins,
      ← hs.isSome_condition hsource, Select.query, hg, ho, hlimit, hoffset, List.isEmpty_map,
      List.isEmpty_map]
  · rw [Query.read_sections hcolumns, Select.query, hg, ho, hlimit, hoffset, hs.joins,
      hs.sourceAlias, Registry.table_of_source hsource]
    rfl

/-- A page of the shelf. -/
def page : FindOptions := { orderedShelf with limit := some 5, offset := some 10 }

theorem select_reads_back_library :
    ∃ s ss q, Registry.library.select "book" page = .ok s ∧ s.fragment.sections = some ss ∧
      ss.map (·.1) = [.select, .fromTable, .leftOuterJoin, .innerJoin, .innerJoin, .filter,
        .groupBy, .orderBy, .limit, .offset] ∧
      Query.read ss = some q ∧ q.joins.map (·.aliasName) = ["chapters", "tags_through", "tags"] ∧
      q.columns.map (·.2) = ["book_id", "book_title", "chapters_id", "chapters_heading",
        "chapters_book_id", "tags_id", "tags_label"] ∧
      q.group = [⟨"book", "title"⟩] ∧ q.order = [(⟨"chapters", "heading"⟩, .desc)] ∧
      q.limit = some 5 ∧ q.offset = some 10 := by
  obtain ⟨host, xs, ss, hs, hss, -, -, hk, hq⟩ :=
    @select_reads_back Registry.library "book" page _ rfl
  cases hs.found.symm.trans (rfl : Registry.library.get? "book" = some _)
  refine ⟨_, ss, _, rfl, hss, ?_, hq, ?_, rfl, rfl, rfl, rfl, rfl⟩
  · rw [hk, FindOptions.keywords, ← hs.keywords_joins]
    rfl
  · rw [← hs.joins]
    rfl

end RowGraph
