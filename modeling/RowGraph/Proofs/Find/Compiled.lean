import RowGraph.Proofs.Filter.Written
import RowGraph.Proofs.Find.Inclusion

/-!
# Proofs — Find — the filters of a find on one counter

A plan has the filters of a find checked, and they are numbered when the plan is written.  The
filters can as well be compiled one after another, the root's first, with one counter threaded
through them (`Filter.writeEach`): **the conditions of a plan are what that comes to**
(`Registry.outcome_writeEach`).
-/

namespace RowGraph

open Sql Draw

namespace Filter

/-- A filter on the columns behind an alias as SQL, if it asks for something. -/
def writeGiven (aliasName : String) : Option Filter → Threaded Nat Error (List Fragment)
  | none | some [] => pure []
  | some (e :: f) => do
      let g ← write .unbounded (some aliasName) (e :: f)
      return [g]

/-- Filters, each behind its alias, one after another. -/
def writeEach : List (String × Option Filter) → Threaded Nat Error (List Fragment)
  | [] => pure []
  | (aliasName, f) :: rest => do
      let gs ← writeGiven aliasName f
      let hs ← writeEach rest
      return gs ++ hs

/-- A predicate that may be left out, from place `n` on. -/
def condition (aliasName : String) (p : Option Predicate) (n : Nat) : List Fragment :=
  p.toList.map fun p => p.fragment (some aliasName) n

/-- How many places a predicate that may be left out takes. -/
def places (p : Option Predicate) : Nat := p.elim 0 Predicate.size

/-- A filter that is checked to be `p` is written as `p`. -/
theorem outcome_writeGiven {f : Option Filter} {p : Option Predicate} {k : Nat}
    (h : (predicate? f).Yields p k) (aliasName : String) (n : Nat) :
    outcome (writeGiven aliasName f) n = (.ok (condition aliasName p n), n + places p) := by
  rcases f with _ | _ | ⟨e, f⟩
  · obtain ⟨rfl, -⟩ := yields_pure h
    rfl
  · obtain ⟨rfl, -⟩ := yields_pure h
    rfl
  · obtain ⟨q, i, j, hq, h₁, -⟩ := yields_bind h
    obtain ⟨rfl, -⟩ := yields_pure h₁
    have hcompile : outcome (write .unbounded (some aliasName) (e :: f)) n =
        (.ok (q.fragment (some aliasName) n), n + q.size) := by
      obtain ⟨-, -, -, rfl⟩ := yields_predicate hq
      have hc := compile_eq (e :: f) (some aliasName) n
      rw [hq] at hc
      exact hc
    rw [writeGiven, outcome_bind, hcompile]
    rfl

end Filter

namespace Inclusion

open RowGraph.Filter

/-- The filter of an inclusion stands at its target's join. -/
theorem filterFragments_joins {r : Registry} {host : Entity} {x : Inclusion}
    (hx : x.Resolved r host) (home : Namespace) (js : List Join) (n : Nat) :
    (Join.filterFragments (x.joins home host ++ js) n).filterMap id =
      condition x.aliasName x.filter n ++
        (Join.filterFragments js (n + places x.filter)).filterMap id := by
  have htarget (left right : TableColumn) :
      (Join.filterFragments (x.targetJoin home left right :: js) n).filterMap id =
        condition x.aliasName x.filter n ++
          (Join.filterFragments js (n + places x.filter)).filterMap id := by
    unfold targetJoin
    cases x.filter <;> rfl
  obtain ⟨ρ, hρ⟩ := hx.exists_route
  cases ρ with
  | direct hostColumn targetColumn =>
      rw [joins, hρ]
      exact htarget _ _
  | linked through otherKey =>
      rw [joins, hρ]
      exact htarget _ _

/-- The filters of inclusions are written as those of their joins. -/
theorem outcome_writeEach {r : Registry} {host : Entity} (home : Namespace) {xs : List Inclusion}
    (hxs : ∀ x ∈ xs, x.Resolved r host) (n : Nat) :
    ∃ m, outcome (writeEach (xs.map fun x => (x.aliasName, x.request.filter))) n =
      (.ok ((Join.filterFragments (xs.flatMap (joins home host)) n).filterMap id), m) := by
  induction xs generalizing n with
  | nil => exact ⟨n, rfl⟩
  | cons x xs ih =>
      obtain ⟨hx, hxs⟩ := List.forall_mem_cons.mp hxs
      obtain ⟨k, hfilter⟩ := hx.filtered
      obtain ⟨m, hm⟩ := ih hxs (n + places x.filter)
      refine ⟨m, ?_⟩
      rw [List.map_cons, writeEach, outcome_bind, outcome_writeGiven hfilter]
      dsimp only
      rw [outcome_bind, hm, List.flatMap_cons, filterFragments_joins hx]
      rfl

end Inclusion

/-- **The conditions of a find are its filters compiled on one counter**, the root's behind the
root's alias and then those of the includes, in order, behind theirs. -/
theorem Registry.outcome_writeEach {r : Registry} {host : Entity} {o : FindOptions} {s : Source}
    (h : r.source host o = .ok s) :
    ∃ xs : List Inclusion, xs.map Inclusion.request = o.includes ∧
      (∀ x ∈ xs, x.Resolved r host) ∧
      ∃ m, outcome (Filter.writeEach ((host.table, o.filter) ::
        xs.map fun x => (x.aliasName, x.request.filter))) 0 = (.ok s.filterFragments, m) := by
  obtain ⟨⟨k, hroot⟩, halias, -, xs, hrequest, hxs, hjoins⟩ := source_eq_ok h
  obtain ⟨m, hm⟩ := Inclusion.outcome_writeEach r.home hxs (0 + Filter.places s.filter)
  refine ⟨xs, hrequest, hxs, m, ?_⟩
  have hfragments : s.filterFragments = Filter.condition host.table s.filter 0 ++
      (Join.filterFragments s.joins (0 + Filter.places s.filter)).filterMap id := by
    rw [Source.filterFragments, halias, Nat.zero_add]
    cases s.filter <;> rfl
  rw [Filter.writeEach, outcome_bind, Filter.outcome_writeGiven hroot]
  dsimp only
  rw [outcome_bind, hm, hfragments, hjoins]
  rfl

end RowGraph
