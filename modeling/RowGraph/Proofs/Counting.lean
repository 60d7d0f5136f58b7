import RowGraph.Proofs.Find.Sections
import RowGraph.Proofs.Record.Graph
import RowGraph.Proofs.Record.Keys
import RowGraph.Proofs.Sql.Spacing

/-!
# Proofs — counting

A count is made of the same source as the find with the same options, and of nothing else that may
be refused.  **Where a find is made, so is the count**, over literally the same tables, joins and
filters and with the same parameters (`count_agrees`), and what it counts, the keys of the root,
are as many as there are records in the end.
-/

namespace RowGraph

open Sql Fragment

/-! ### Sections as text -/

section

variable {t : Token} (ht : t.isWord) {x : Option Fragment}
include ht

theorem headed_part : Headed (x.elim [] (token t ++ ·)) := by
  cases x with
  | none => exact fun _ h => by cases h
  | some f => exact headed_token ht f

theorem closes_part (hx : ∀ f ∈ x, Closes f) : Closes (x.elim [] (token t ++ ·)) := by
  have hp : t.isPunctuation = false := by
    rw [Token.isWord, Bool.and_eq_true] at ht
    simpa using ht.2
  cases x with
  | none => exact kept_closes.nil
  | some f => exact (closes_token (.inl hp)).append (hx f rfl)

end

/-! ### Sources as text -/

namespace Source

theorem ne_nil (s : Source) : s.fragment ≠ [] := by
  simp [fragment, token]

theorem headed (s : Source) : s.fragment.Headed := by
  simp only [fragment, List.append_assoc]
  exact headed_token rfl _

theorem closes (s : Source) : s.fragment.Closes := by
  have htable := ((closes_token (t := .fromTable) (.inl rfl)).append
    (kept_closes.named s.table s.aliasName))
  have hjoins : ∀ js : List Join, Closes (js.flatMap Join.fragment) := by
    intro js
    induction js with
    | nil => exact kept_closes.nil
    | cons j js ih =>
        have hk : Closes (token j.kind.token) := by cases j.kind <;> exact closes_token (.inl rfl)
        have hj := hk.append (kept_closes.joinHead j.head)
        rw [← j.fragment_eq] at hj
        exact hj.append ih
  have hwhere : Closes (whereClause s.filterFragments) := by
    rw [whereClause_eq]
    exact closes_part rfl (kept_closes.condition s)
  have h := (htable.append (hjoins s.joins)).append hwhere
  simpa [fragment, Query.named] using h

/-- Behind anything that is closed the text of a source is the same. -/
theorem following_eq (s : Source) : s.fragment.following = " " ++ s.fragment.text := by
  rw [following, if_neg (by simpa using s.ne_nil)]

end Source

/-! ### Counts and finds as text -/

namespace Count

/-- What stands in front of the source: the key that is counted. -/
def opening (c : Count) : Fragment :=
  token .select ++ call "COUNT" (token .distinct ++ c.key.fragment) ++ token .as ++ ident "count"

theorem text_opening (c : Count) : c.opening.text =
    "SELECT COUNT(DISTINCT " ++ Chunk.quoteIdent c.key.aliasName ++ "." ++
      Chunk.quoteIdent c.key.column ++ ") AS \x60count\x60" := by
  have hfront : "SELECT COUNT(DISTINCT " = "SELECT" ++ (" " ++ ("COUNT" ++ ("(" ++ ("DISTINCT" ++
      " ")))) := by decide
  have hback : ") AS \x60count\x60" =
      ")" ++ (" " ++ ("AS" ++ (" " ++ Chunk.quoteIdent "count"))) := by decide
  -- between two chunks stands a blank or nothing
  have htext : c.opening.text = "SELECT" ++ " " ++ ("COUNT" ++ "" ++ ("(" ++ "" ++ ("DISTINCT" ++
      " " ++ (Chunk.quoteIdent c.key.aliasName ++ "" ++ ("." ++ "" ++
        (Chunk.quoteIdent c.key.column ++ "" ++ (")" ++ " " ++ ("AS" ++ " " ++
          Chunk.quoteIdent "count")))))))) := rfl
  rw [htext, hfront, hback]
  simp only [String.append_assoc, String.empty_append]

theorem text_fragment (c : Count) : c.fragment.text =
    c.opening.text ++ " " ++ c.source.fragment.text := by
  have hcloses : c.opening.Closes := by
    rw [opening]
    exact closes_concat (by simp) (by simp)
  have hne : c.opening ≠ [] := List.cons_ne_nil _ _
  have h := text_append hne hcloses c.source.headed
  rw [c.source.following_eq, ← String.append_assoc] at h
  exact h

end Count

namespace Select

/-- What stands in front of the source: the columns with their labels. -/
def opening (s : Select) : Fragment :=
  token .select ++ commas (s.shape.tables.flatMap projection)

/-- What stands behind the source. -/
def closing (s : Select) : String :=
  (clause .groupBy (s.group.map TableColumn.fragment)).following ++
    (clause .orderBy (s.order.map orderTerm)).following ++
    (bound .limit s.limit).following ++ (bound .offset s.offset).following

theorem text_fragment (s : Select) : s.fragment.text =
    s.opening.text ++ " " ++ s.source.fragment.text ++ s.closing := by
  have hlisted {α : Type} {write : α → Fragment} (hw : ∀ a, Closes (write a)) (as : List α) :
      ∀ f ∈ Query.listed (as.map write), Closes f :=
    kept_closes.listed (List.forall_mem_map.mpr fun a _ => hw a)
  have hnumber (n : Option Nat) : ∀ f ∈ n.map fun n => ([.number n] : Fragment), Closes f := by
    intro f hf
    obtain ⟨k, -, rfl⟩ := Option.map_eq_some_iff.mp hf
    exact closes_concat (f := []) (by simp) (by simp)
  have hopening : s.opening.Closes := by
    rw [opening, projection_eq]
    exact (closes_token (.inl rfl)).append
      (kept_closes.commas (List.forall_mem_map.mpr fun c _ => kept_closes.labelled c))
  have hne : s.opening ≠ [] := List.cons_ne_nil _ _
  have hsource := hopening.append s.source.closes
  have hgroup := hsource.append (closes_part (t := .groupBy) rfl
    (hlisted kept_closes.tableColumn s.group))
  have horder := hgroup.append (closes_part (t := .orderBy) rfl
    (hlisted kept_closes.orderTerm s.order))
  have hlimit := horder.append (closes_part (t := .limit) rfl (hnumber s.limit))
  have h : s.fragment = s.opening ++ s.source.fragment ++
      (Query.listed (s.group.map TableColumn.fragment)).elim [] (token .groupBy ++ ·) ++
      (Query.listed (s.order.map orderTerm)).elim [] (token .orderBy ++ ·) ++
      (s.limit.map fun n => ([.number n] : Fragment)).elim [] (token .limit ++ ·) ++
      (s.offset.map fun n => ([.number n] : Fragment)).elim [] (token .offset ++ ·) := by
    simp only [← clause_eq, ← bound_eq]
    rfl
  rw [h, text_append (by simp [hne]) hlimit (headed_part rfl),
    text_append (by simp [hne]) horder (headed_part rfl),
    text_append (by simp [hne]) hgroup (headed_part rfl),
    text_append (by simp [hne]) hsource (headed_part rfl),
    text_append hne hopening s.source.headed, s.source.following_eq, closing]
  simp only [clause_eq, bound_eq, String.append_assoc]

end Select

/-! ### Counts beside finds -/

namespace Registry

variable {r : Registry} {name : String} {o : FindOptions}

theorem select_eq_error {e : Error} (h : r.count name o = .error e) :
    r.select name o = .error e := by
  unfold count at h
  unfold select
  cases hh : r.entity name with
  | error e' =>
      rw [hh] at h
      exact congrArg Except.error (Except.error.inj h)
  | ok host =>
      rw [hh] at h
      cases hs : r.source host o with
      | error e' =>
          simp only [hs, bind, Except.bind] at h ⊢
          exact congrArg Except.error (Except.error.inj h)
      | ok source => simp [hs, bind, Except.bind, pure, Except.pure] at h

theorem count_of_select {s : Select} (h : r.select name o = .ok s) {host : Entity}
    (hh : r.get? name = some host) :
    r.count name o = .ok ⟨s.source, ⟨host.table, host.primaryKey⟩⟩ := by
  obtain ⟨host', hh', hs, -⟩ := select_eq_ok h
  cases hh.symm.trans hh'
  unfold count entity
  rw [hh]
  simp [hs, bind, Except.bind, pure, Except.pure]

end Registry

/-- Combinations make as many records as there are keys of the root in them. -/
theorem Select.Planned.length_records {r : Registry} {name : String} {o : FindOptions} {s : Select}
    {host : Entity} {xs : List Inclusion} (hs : s.Planned r name o host xs) (ho : o.includes ≠ [])
    (hn : s.shape.labels.Nodup) (cs : List Combination) :
    (s.shape.records (cs.map fun c => s.shape.flatRow c.cell)).length =
      (Value.distinct (cs.map (·.cell host.table host.primaryKey))).length := by
  have hi : s.shape.includes ≠ [] := by
    rw [hs.includes]
    rw [← hs.requests] at ho
    simpa using ho
  have hroot : s.shape.root ∈ s.shape.tables := List.mem_cons_self
  have hkey (c : Combination) : (s.shape.flatRow c.cell).get s.shape.root.keyLabel =
      c.cell host.table host.primaryKey := by
    rw [TableShape.keyLabel, Shape.get_flatRow hn c.cell hroot (hs.keyed _ hroot).key_mem,
      hs.rootAlias, hs.rootKey]
  rw [s.shape.length_records hi, List.map_map]
  exact congrArg (fun vs => (Value.distinct vs).length) (List.map_congr_left fun c _ => hkey c)

/-- **Counting agrees with finding.** -/
theorem count_agrees (r : Registry) (name : String) (o : FindOptions) :
    (∀ e, r.count name o = .error e → r.select name o = .error e) ∧
    ∀ s, r.select name o = .ok s → ∃ host c, r.get? name = some host ∧ r.count name o = .ok c ∧
      c.statement.params = s.statement.params ∧
      c.statement.sql =
        "SELECT COUNT(DISTINCT " ++ Chunk.quoteIdent host.table ++ "." ++
          Chunk.quoteIdent host.primaryKey ++ ") AS \x60count\x60" ++ " " ++
          s.source.fragment.text ∧
      s.statement.sql = s.opening.text ++ " " ++ s.source.fragment.text ++ s.closing ∧
      (o.includes ≠ [] → ∀ rows, (s.shape.records rows).length =
        (Value.distinct (rows.map (·.get s.shape.root.keyLabel))).length) ∧
      (o.includes ≠ [] → s.shape.labels.Nodup → ∀ cs : List Combination,
        (s.shape.records (cs.map fun c => s.shape.flatRow c.cell)).length =
          (Value.distinct (cs.map (·.cell host.table host.primaryKey))).length) := by
  refine ⟨fun e => Registry.select_eq_error, fun s h => ?_⟩
  obtain ⟨host, xs, hs⟩ := Registry.planned_of_select h
  have hincludes : o.includes ≠ [] → s.shape.includes ≠ [] := by
    rw [← hs.requests, hs.includes]
    simp
  refine ⟨host, _, hs.found, Registry.count_of_select h hs.found, ?_, ?_, s.text_fragment,
    fun ho => s.shape.length_records (hincludes ho), hs.length_records⟩
  · rw [Count.statement, Select.statement, statement, statement, s.carries_fragment.params,
      Count.carries_fragment _ |>.params]
  · rw [Count.statement, statement, Count.text_fragment, Count.text_opening]

theorem count_agrees_library :
    Registry.library.select "shelf" catalogue = .error (.unknownEntity "shelf") ∧
    ∃ s c, Registry.library.select "book" catalogue = .ok s ∧
      Registry.library.count "book" catalogue = .ok c ∧
      c.statement.params = s.statement.params ∧
      c.statement.sql = "SELECT COUNT(DISTINCT \x60book\x60.\x60id\x60) AS \x60count\x60 " ++
        s.source.fragment.text ∧
      (s.shape.records (s.flatRows collection "book")).length = 1 := by
  obtain ⟨herror, -⟩ := count_agrees Registry.library "shelf" catalogue
  obtain ⟨-, hok⟩ := count_agrees Registry.library "book" catalogue
  obtain ⟨host, c, hh, hc, hp, ht, -, hl, -⟩ := hok _ rfl
  cases hh.symm.trans (rfl : Registry.library.get? "book" = some _)
  refine ⟨herror _ rfl, _, c, rfl, hc, hp, ht.trans ?_, (hl (List.cons_ne_nil _ _) _).trans ?_⟩
  · have hq : "SELECT COUNT(DISTINCT " ++ Chunk.quoteIdent "book" ++ "." ++ Chunk.quoteIdent "id" ++
        ") AS \x60count\x60" ++ " " =
          "SELECT COUNT(DISTINCT \x60book\x60.\x60id\x60) AS \x60count\x60 " := by decide
    exact congrArg (· ++ _) hq
  · rfl

end RowGraph
