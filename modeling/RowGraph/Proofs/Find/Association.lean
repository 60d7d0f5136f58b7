import RowGraph.Proofs.Find.Valid
import RowGraph.Proofs.Schema.Run

/-!
# Proofs — Find — associations that stay

An association is wired under an alias, its own or the table of its target, and an include asks
for it by an alias, its own or the table of its target.  The two defaults are filled in at
different times, by different steps; they agree since no step changes a table, and an alias that
is taken stays taken.

**What was wired is found ever after** (`Registry.find_wired`), whatever steps follow, and no
include means anything else besides.
-/

namespace RowGraph.Registry

/-- Which includes lead from the host to the association `b` and its target. -/
structure LeadsTo (r : Registry) (host : Entity) (b : Association) (target : Entity) : Prop where
  /-- Those that name the target and the alias. -/
  byAlias : ∀ i : Include, i.target = b.target → i.aliasName? = some b.aliasName →
    r.findAssociation host i = .ok (b, target)
  /-- One that names the target alone, exactly if the alias is the target's table. -/
  byTable : ∀ i : Include, i.target = b.target → i.aliasName? = none →
    (r.findAssociation host i = .ok (b, target) ↔ b.aliasName = target.table)
  /-- No include means two of the host's associations. -/
  alone : host.associations.Pairwise fun b c =>
    ∀ i t t', ¬ (r.Means host i (b, t) ∧ r.Means host i (c, t'))

variable {r : Registry} {host target : Entity} {b : Association}

/-- An include that meant two associations would have to name both by one alias. -/
theorem Lawful.pairwise_means (hr : r.Lawful) (hh : host ∈ r.entities) :
    host.associations.Pairwise fun b c =>
      ∀ i t t', ¬ (r.Means host i (b, t) ∧ r.Means host i (c, t')) := by
  have hne : host.associations.Pairwise fun b c => b.aliasName ≠ c.aliasName :=
    List.pairwise_map.mp (hr.aliases host hh)
  refine hne.imp ?_
  rintro b c hbc i t t' ⟨hb, hc⟩
  have ht : t = t' := Option.some.inj (hb.defined.symm.trans hc.defined)
  exact hbc (hb.named.trans (ht ▸ hc.named.symm))

/-- The associations of a lawful registry's entities are found. -/
theorem Lawful.leadsTo (hr : r.Lawful) (hh : host ∈ r.entities) (hb : b ∈ host.associations)
    (ht : r.get? b.target = some target) : r.LeadsTo host b target := by
  have hfind : ∀ i : Include, i.target = b.target →
      (r.findAssociation host i = .ok (b, target) ↔
        b.aliasName = i.aliasName?.getD target.table) := by
    intro i hi
    rw [hr.findAssociation_eq_ok_iff hh]
    exact ⟨fun h => h.named, fun hn => ⟨by rw [hi, ht], hb, hi.symm, hn⟩⟩
  refine ⟨fun i hi ha => ?_, fun i hi ha => ?_, hr.pairwise_means hh⟩
  · rw [hfind i hi, ha]
    rfl
  · rw [hfind i hi, ha]
    rfl

/-- **What was wired is found ever after**, as it was wired, whatever steps follow and whichever
of them are refused. -/
theorem find_wired {home : Namespace} {steps : List Step} {owner : String} {a wired : Association}
    {r : Registry} (h : ((empty home).run steps).associate owner a = .ok (r, wired))
    (more : List Step) :
    ∃ host target,
      ((empty home).run (steps ++ .associate owner a :: more)).get? owner = some host ∧
      ((empty home).run (steps ++ .associate owner a :: more)).get? wired.target = some target ∧
      wired = a.withDefaultAlias target.table ∧
      ((empty home).run (steps ++ .associate owner a :: more)).LeadsTo host wired target := by
  have hafter : ((empty home).run steps).after (.associate owner a) = r := after_of_associate h
  have hrun : (empty home).run (steps ++ .associate owner a :: more) = r.run more := by
    rw [run_append, ← hafter]
    rfl
  have hlawful : (r.run more).Lawful := hrun ▸ (run_lawful home _).1
  obtain ⟨host, target, hh, ht, hw, hm⟩ := (wires_associate h).mono (extends_run r more)
  have ht' : (r.run more).get? wired.target = some target := by
    rw [hw]
    exact ht
  rw [hrun]
  exact ⟨host, target, hh, ht', hw, hlawful.leadsTo (mem_of_get? hh) hm ht'⟩

/-- The chapters of a book, wired without an alias, are found behind steps of which some are
refused. -/
theorem find_wired_chapters :
    ∃ host target,
      ((empty .empty).run [.define "book" [], .define "chapter" [.column "book_id" .int64],
        .associate "book" { chapters with aliasName? := none }, .associate "book" chapters,
        .associate "book" chapters, .define "book" []]).get? "book" = some host ∧
      ((empty .empty).run [.define "book" [], .define "chapter" [.column "book_id" .int64],
        .associate "book" { chapters with aliasName? := none }, .associate "book" chapters,
        .associate "book" chapters, .define "book" []]).findAssociation host
          ⟨"chapter", none, none, false, none⟩ =
        .ok ({ chapters with aliasName? := some "chapter" }, target) := by
  obtain ⟨host, target, hh, ht, -, hl⟩ :=
    @find_wired .empty [.define "book" [], .define "chapter" [.column "book_id" .int64]] "book"
      { chapters with aliasName? := none } { chapters with aliasName? := some "chapter" } _ rfl
      [.associate "book" chapters, .associate "book" chapters, .define "book" []]
  cases ht
  exact ⟨host, _, hh, (hl.byTable ⟨"chapter", none, none, false, none⟩ rfl rfl).mpr rfl⟩

end RowGraph.Registry
