import RowGraph.Proofs.Schema.Lawful

/-!
# Proofs — Schema — runs of definitions

A run is any finite sequence of steps from an empty registry (`Registry.run`).  A step defines an
entity, put together by any calls of the builder, or wires an association.  It is work on the
registry, and the run goes on with what that leaves, refused or not.

**Every run leads to a lawful registry** (`Registry.run_lawful`).  A step leaves the registry as it
was exactly if it is refused, and no step takes anything from an entity.
-/

namespace RowGraph

/-! ### Calls of the builder -/

/-- A call on an entity in the making. -/
inductive Declaration.Call where
  | table (name : String)
  | primaryKey (column : String)
  | column (name : String) (type : DataType)

namespace Declaration

def call (d : Declaration) : Call → Declaration
  | .table name => d.withTable name
  | .primaryKey column => d.withPrimaryKey column
  | .column name type => d.withColumn name type

/-- The declaration that calls lead to, one after the other. -/
def ofCalls (name : String) (calls : List Call) : Declaration := calls.foldl call (.start name)

end Declaration

/-! ### Steps and runs -/

/-- A step that may be refused. -/
inductive Registry.Step where
  | define (name : String) (calls : List Declaration.Call)
  | associate (owner : String) (a : Association)

namespace Registry

/-- What a step does to the registry it is taken on. -/
def Step.work : Step → Threaded Registry Error Unit
  | .define name calls => defining (Declaration.ofCalls name calls).entity
  | .associate owner a => do
      let _ ← associating owner a

/-- The registry a step leads to, or why it is refused. -/
def attempt (r : Registry) (s : Step) : Except Error Registry := (accepted s.work r).map (·.2)

/-- The registry after a step, as its work leaves it. -/
def after (r : Registry) (s : Step) : Registry := (outcome s.work r).2

/-- The registry after all of the steps. -/
def run (r : Registry) (steps : List Step) : Registry := steps.foldl after r

theorem run_append (r : Registry) (steps more : List Step) :
    r.run (steps ++ more) = (r.run steps).run more :=
  List.foldl_append

/-! ### What a step does -/

theorem attempt_associate (r : Registry) (owner : String) (a : Association) :
    r.attempt (.associate owner a) = (r.associate owner a).map (·.1) := by
  rw [attempt, accepted, Step.work, outcome_bind, outcome_associating, associate_eq]
  cases r.checked owner a <;> rfl

theorem attempt_associate_eq_ok {r r' : Registry} {owner : String} {a : Association}
    (h : r.attempt (.associate owner a) = .ok r') :
    ∃ wired, r.associate owner a = .ok (r', wired) := by
  rw [attempt_associate] at h
  cases hr : r.associate owner a with
  | error e =>
      rw [hr] at h
      cases h
  | ok p =>
      rw [hr] at h
      cases h
      exact ⟨p.2, rfl⟩

/-- Work that is refused has not changed anything. -/
theorem outcome_work_error {r r' : Registry} {s : Step} {e : Error}
    (h : outcome s.work r = (.error e, r')) : r' = r := by
  cases s with
  | define name calls =>
      rw [Step.work, outcome_defining] at h
      split at h
      case isTrue => cases h
      case isFalse => exact (Prod.mk.inj h).2.symm
  | associate owner a =>
      rw [Step.work, outcome_bind, outcome_associating] at h
      cases hc : r.checked owner a with
      | ok wired =>
          rw [hc] at h
          cases h
      | error e' =>
          rw [hc] at h
          exact (Prod.mk.inj h).2.symm

theorem after_of_attempt_ok {r r' : Registry} {s : Step} (h : r.attempt s = .ok r') :
    r.after s = r' := by
  rw [attempt, accepted] at h
  split at h
  case h_1 u r₁ ho =>
      rw [after, ho]
      exact Except.ok.inj h
  case h_2 => cases h

theorem after_of_attempt_error {r : Registry} {s : Step} {e : Error} (h : r.attempt s = .error e) :
    r.after s = r := by
  rw [attempt, accepted] at h
  split at h
  case h_1 => cases h
  case h_2 e' r₁ ho =>
      rw [after, ho]
      exact outcome_work_error ho

theorem after_of_associate {r r' : Registry} {owner : String} {a wired : Association}
    (h : r.associate owner a = .ok (r', wired)) : r.after (.associate owner a) = r' :=
  after_of_attempt_ok (by rw [attempt_associate, h]; rfl)

theorem extends_attempt {r r' : Registry} {s : Step} (h : r.attempt s = .ok r') :
    r.Extends r' := by
  cases s with
  | define name calls => exact extends_define h
  | associate owner a =>
      obtain ⟨wired, hw⟩ := attempt_associate_eq_ok h
      exact extends_associate hw

/-- A step that is not refused leads to another registry: it has one entity more, or the owner has
one association more. -/
theorem ne_of_attempt {r r' : Registry} {s : Step} (h : r.attempt s = .ok r') : r' ≠ r := by
  intro heq
  cases s with
  | define name calls =>
      obtain ⟨free, rfl⟩ := define_eq_ok h
      have hl := congrArg (fun r : Registry => r.entities.length) heq
      simp [add] at hl
  | associate owner a =>
      obtain ⟨wired, hw⟩ := attempt_associate_eq_ok h
      obtain ⟨host, target, hhost, -, -, -, -, rfl⟩ := associate_eq_ok hw
      have hg := get?_wire r owner wired owner
      rw [heq, hhost, Option.map_some, attach, if_pos (name_of_get? hhost)] at hg
      have hl := congrArg (fun e : Entity => e.associations.length) (Option.some.inj hg)
      simp at hl

theorem after_eq_self_iff {r : Registry} {s : Step} :
    r.after s = r ↔ ∃ e, r.attempt s = .error e := by
  cases h : r.attempt s with
  | ok r' => simpa [after_of_attempt_ok h] using ne_of_attempt h
  | error e => simp [after_of_attempt_error h]

theorem extends_after (r : Registry) (s : Step) : r.Extends (r.after s) := by
  cases h : r.attempt s with
  | ok r' =>
      rw [after_of_attempt_ok h]
      exact extends_attempt h
  | error e =>
      rw [after_of_attempt_error h]
      exact .refl r

theorem Reached.after {r : Registry} (h : r.Reached) (s : Step) : (r.after s).Reached := by
  cases hs : r.attempt s with
  | error e =>
      rw [after_of_attempt_error hs]
      exact h
  | ok r' =>
      rw [after_of_attempt_ok hs]
      cases s with
      | define name calls => exact .define h hs
      | associate owner a =>
          obtain ⟨wired, hw⟩ := attempt_associate_eq_ok hs
          exact .associate h hw

/-! ### What is wired -/

/-- An association was wired onto its owner, where it is `b`: its alias, if it had none, is the
table of its target. -/
def Wires (r : Registry) (owner : String) (a b : Association) : Prop :=
  ∃ host target, r.get? owner = some host ∧ r.get? a.target = some target ∧
    b = a.withDefaultAlias target.table ∧ b ∈ host.associations

/-- What is wired is never lost or replaced. -/
theorem Wires.mono {r r' : Registry} {owner : String} {a b : Association}
    (h : r.Wires owner a b) (hr : r.Extends r') : r'.Wires owner a b := by
  obtain ⟨host, target, hh, ht, hb, hm⟩ := h
  obtain ⟨host', hh', hx⟩ := hr owner host hh
  obtain ⟨target', ht', hx'⟩ := hr a.target target ht
  exact ⟨host', target', hh', ht', by rw [hx'.table, hb], hx.associations.subset hm⟩

theorem wires_associate {r r' : Registry} {owner : String} {a wired : Association}
    (h : r.associate owner a = .ok (r', wired)) : r'.Wires owner a wired := by
  have hx := extends_associate h
  obtain ⟨host, target, hh, ht, hw, -, -, rfl⟩ := associate_eq_ok h
  obtain ⟨target', ht', hx'⟩ := hx a.target target ht
  refine ⟨attach owner wired host, target', ?_, ht', by rw [hx'.table, hw], ?_⟩
  · rw [get?_wire, hh, Option.map_some]
  · rw [attach, if_pos (name_of_get? hh)]
    exact List.mem_append_right _ (List.mem_singleton_self wired)

/-! ### What a run does -/

theorem extends_run (r : Registry) (steps : List Step) : r.Extends (r.run steps) := by
  induction steps generalizing r with
  | nil => exact .refl r
  | cons s steps ih => exact (extends_after r s).trans (ih (r.after s))

theorem Reached.run {r : Registry} (h : r.Reached) (steps : List Step) : (r.run steps).Reached := by
  induction steps generalizing r with
  | nil => exact h
  | cons s steps ih => exact ih (h.after s)

/-- **Every run leads to a lawful registry**, whichever of its steps are refused.  A step leaves
the registry as it was exactly if it is refused; and whatever follows, an entity keeps its table,
its key, its columns and the associations it has. -/
theorem run_lawful (home : Namespace) (steps : List Step) :
    ((empty home).run steps).Lawful ∧
      (∀ (r : Registry) (s : Step), r.after s = r ↔ ∃ e, r.attempt s = .error e) ∧
      ∀ more : List Step, ((empty home).run steps).Extends ((empty home).run (steps ++ more)) := by
  refine ⟨((Reached.empty home).run steps).lawful, fun r s => after_eq_self_iff, ?_⟩
  intro more
  rw [run_append]
  exact extends_run _ more

/-- Steps that are refused leave no trace. -/
example : (empty .empty).run [.define "tag" [], .define "tag" [.primaryKey "key"],
    .associate "tag" chapters] = (empty .empty).run [.define "tag" []] := rfl

end Registry

end RowGraph
