import Mathlib.Data.List.Perm.Basic
import RowGraph.Proofs.Schema.Run

/-!
# Proofs — Schema — definitions in any order

If no step is refused, a registry is made of its steps and of nothing else
(`Registry.Assembled`): each entity was declared by one of them and each association was wired by
one.  What a step makes does not depend on when it is taken, since the one thing it reads that is
not its own, the table of an association's target, never changes.

So **the same steps in another order lead to a registry that is alike** (`Registry.alike_of_perm`):
it has the same entities, with the same associations, though perhaps in another order.
-/

namespace RowGraph

/-- The entity `e'` is `e`, perhaps with its associations in another order. -/
structure Entity.Alike (e e' : Entity) : Prop where
  name : e'.name = e.name
  table : e'.table = e.table
  primaryKey : e'.primaryKey = e.primaryKey
  columns : e'.columns = e.columns
  associations : e.associations.Perm e'.associations

namespace Entity.Alike

variable {e e' : Entity}

protected theorem refl (e : Entity) : e.Alike e :=
  ⟨rfl, rfl, rfl, rfl, .refl _⟩

protected theorem symm (h : e.Alike e') : e'.Alike e :=
  ⟨h.name.symm, h.table.symm, h.primaryKey.symm, h.columns.symm, h.associations.symm⟩

/-- All but the associations are the same. -/
theorem eq_with (h : e.Alike e') : e' = { e with associations := e'.associations } := by
  obtain ⟨name, table, primaryKey, columns, associations, nodup, key⟩ := e'
  obtain ⟨rfl, rfl, rfl, rfl, -⟩ := h
  rfl

end Entity.Alike

/-- The same entities are found under the same names, perhaps with their associations in another
order. -/
structure Registry.Alike (r r' : Registry) : Prop where
  home : r'.home = r.home
  entities : ∀ name, Option.Rel Entity.Alike (r.get? name) (r'.get? name)

namespace Declaration

theorem name_ofCalls (name : String) (calls : List Call) :
    (ofCalls name calls).entity.name = name := by
  have step : ∀ d : Declaration, (calls.foldl Declaration.call d).name = d.name := by
    induction calls with
    | nil => exact fun _ => rfl
    | cons c calls ih =>
        intro d
        rw [List.foldl_cons, ih]
        cases c <;> rfl
  exact step (.start name)

end Declaration

namespace Registry

/-! ### Runs without refusals -/

/-- The registry that the steps lead to if none of them is refused. -/
def build (r : Registry) (steps : List Step) : Except Error Registry := steps.foldlM attempt r

theorem build_cons_eq_ok {r r' : Registry} {s : Step} {steps : List Step}
    (h : r.build (s :: steps) = .ok r') :
    ∃ r₁, r.attempt s = .ok r₁ ∧ r₁.build steps = .ok r' := by
  rw [build, List.foldlM_cons] at h
  exact bind_eq_ok h

theorem run_of_build {r r' : Registry} {steps : List Step} (h : r.build steps = .ok r') :
    r.run steps = r' := by
  induction steps generalizing r with
  | nil =>
      cases h
      rfl
  | cons s steps ih =>
      obtain ⟨r₁, hs, h⟩ := build_cons_eq_ok h
      rw [run, List.foldl_cons, after_of_attempt_ok hs]
      exact ih h

theorem home_attempt {r r' : Registry} {s : Step} (h : r.attempt s = .ok r') :
    r'.home = r.home := by
  cases s with
  | define name calls =>
      obtain ⟨free, rfl⟩ := define_eq_ok h
      rfl
  | associate owner a =>
      obtain ⟨wired, hw⟩ := attempt_associate_eq_ok h
      obtain ⟨host, target, -, -, -, -, -, rfl⟩ := associate_eq_ok hw
      rfl

theorem home_build {r r' : Registry} {steps : List Step} (h : r.build steps = .ok r') :
    r'.home = r.home := by
  induction steps generalizing r with
  | nil =>
      cases h
      rfl
  | cons s steps ih =>
      obtain ⟨r₁, hs, h⟩ := build_cons_eq_ok h
      exact (ih h).trans (home_attempt hs)

/-! ### What a registry is made of -/

/-- The registry has what the steps ask for, and nothing else. -/
structure Assembled (r : Registry) (steps : List Step) : Prop where
  declared : ∀ name calls, .define name calls ∈ steps →
    ∃ e, r.get? name = some e ∧ (Declaration.ofCalls name calls).entity.Extends e
  wired : ∀ owner a, .associate owner a ∈ steps → ∃ b, r.Wires owner a b
  entities : ∀ e ∈ r.entities, ∃ calls, .define e.name calls ∈ steps
  associations : ∀ e ∈ r.entities, ∀ b ∈ e.associations,
    ∃ a, .associate e.name a ∈ steps ∧ r.Wires e.name a b

theorem get?_define {r r' : Registry} {e : Entity} (h : r.define e = .ok r') :
    r'.get? e.name = some e := by
  obtain ⟨free, rfl⟩ := define_eq_ok h
  rw [get?, add, List.find?_append, show r.entities.find? _ = none from free]
  simp

theorem assembled_empty (home : Namespace) : (empty home).Assembled [] where
  declared := fun _ _ h => absurd h List.not_mem_nil
  wired := fun _ _ h => absurd h List.not_mem_nil
  entities := fun _ h => absurd h List.not_mem_nil
  associations := fun _ h => absurd h List.not_mem_nil

/-- Where the entities behind a step come from: one was there, with all associations but the one
that the step wires, or the step declares it. -/
theorem mem_attempt {r r' : Registry} {s : Step} (h : r.attempt s = .ok r') {e' : Entity}
    (he' : e' ∈ r'.entities) :
    (∃ e ∈ r.entities, e'.name = e.name ∧ ∀ b ∈ e'.associations,
      b ∈ e.associations ∨ ∃ a, s = .associate e.name a ∧ r'.Wires e.name a b) ∨
    ∃ calls, s = .define e'.name calls ∧ e'.associations = [] := by
  cases s with
  | define name calls =>
      obtain ⟨free, rfl⟩ := define_eq_ok h
      rcases List.mem_append.mp he' with he | he
      · exact .inl ⟨e', he, rfl, fun b hb => .inl hb⟩
      · obtain rfl := List.mem_singleton.mp he
        exact .inr ⟨calls, by rw [Declaration.name_ofCalls], rfl⟩
  | associate owner a =>
      obtain ⟨wired, hw⟩ := attempt_associate_eq_ok h
      obtain ⟨host, target, -, -, -, -, -, rfl⟩ := associate_eq_ok hw
      obtain ⟨e, he, rfl⟩ := List.mem_map.mp he'
      refine .inl ⟨e, he, (Entity.extends_attach owner wired e).name, fun b hb => ?_⟩
      rcases mem_associations_attach hb with hb | ⟨rfl, rfl⟩
      · exact .inl hb
      · exact .inr ⟨a, rfl, wires_associate hw⟩

/-- A step keeps what was assembled and adds what it asks for. -/
theorem Assembled.attempt {r r' : Registry} {steps : List Step} (h : r.Assembled steps) {s : Step}
    (hs : r.attempt s = .ok r') : r'.Assembled (steps ++ [s]) := by
  have hx : r.Extends r' := extends_attempt hs
  have hold : ∀ {t : Step}, t ∈ steps → t ∈ steps ++ [s] := List.mem_append_left _
  have hself : s ∈ steps ++ [s] := List.mem_append_right _ (List.mem_singleton_self s)
  refine ⟨fun name calls ht => ?_, fun owner a ht => ?_, fun e' he' => ?_, fun e' he' b hb => ?_⟩
  · rcases List.mem_append.mp ht with ht | ht
    · obtain ⟨e, he, hd⟩ := h.declared name calls ht
      obtain ⟨e', he', hee⟩ := hx name e he
      exact ⟨e', he', hd.trans hee⟩
    · obtain rfl := List.mem_singleton.mp ht
      have hg := get?_define hs
      rw [Declaration.name_ofCalls] at hg
      exact ⟨_, hg, .refl _⟩
  · rcases List.mem_append.mp ht with ht | ht
    · obtain ⟨b, hb⟩ := h.wired owner a ht
      exact ⟨b, hb.mono hx⟩
    · obtain rfl := List.mem_singleton.mp ht
      obtain ⟨wired, hw⟩ := attempt_associate_eq_ok hs
      exact ⟨wired, wires_associate hw⟩
  · rcases mem_attempt hs he' with ⟨e, he, hn, -⟩ | ⟨calls, rfl, -⟩
    · obtain ⟨calls, hc⟩ := h.entities e he
      exact ⟨calls, hn ▸ hold hc⟩
    · exact ⟨calls, hself⟩
  · rcases mem_attempt hs he' with ⟨e, he, hn, hbs⟩ | ⟨-, -, hnil⟩
    · rw [hn]
      rcases hbs b hb with hb | ⟨a, rfl, hw⟩
      · obtain ⟨a, ha, hw⟩ := h.associations e he b hb
        exact ⟨a, hold ha, hw.mono hx⟩
      · exact ⟨a, hself, hw⟩
    · rw [hnil] at hb
      cases hb

theorem Assembled.build {r r' : Registry} {done steps : List Step} (h : r.Assembled done)
    (hs : r.build steps = .ok r') : r'.Assembled (done ++ steps) := by
  induction steps generalizing r done with
  | nil =>
      cases hs
      rwa [List.append_nil]
  | cons s steps ih =>
      obtain ⟨r₁, ha, hs⟩ := build_cons_eq_ok hs
      have := ih (h.attempt ha) hs
      rwa [List.append_assoc, List.singleton_append] at this

theorem Assembled.perm {r : Registry} {steps steps' : List Step} (h : r.Assembled steps)
    (hp : steps.Perm steps') : r.Assembled steps' where
  declared name calls ht := h.declared name calls (hp.mem_iff.mpr ht)
  wired owner a ht := h.wired owner a (hp.mem_iff.mpr ht)
  entities e he := (h.entities e he).imp fun _ => hp.mem_iff.mp
  associations e he b hb := (h.associations e he b hb).imp fun _ => And.imp_left hp.mem_iff.mp

/-! ### Registries made of the same steps -/

section

variable {r r' : Registry} {steps : List Step} (h : r.Assembled steps) (h' : r'.Assembled steps)
include h h'

/-- Both have an entity if one of them has it, and but for its associations it is the same. -/
theorem Assembled.exists_declared {name : String} {e : Entity} (he : r.get? name = some e) :
    ∃ e' d, r'.get? name = some e' ∧ Entity.Extends d e ∧ Entity.Extends d e' := by
  obtain ⟨calls, hc⟩ := h.entities e (mem_of_get? he)
  rw [name_of_get? he] at hc
  obtain ⟨e₁, he₁, hd⟩ := h.declared name calls hc
  obtain ⟨e', he', hd'⟩ := h'.declared name calls hc
  cases he.symm.trans he₁
  exact ⟨e', _, he', hd, hd'⟩

/-- What is wired in one of them is wired in the other. -/
theorem Assembled.associations_subset {name : String} {e e' : Entity} (he : r.get? name = some e)
    (he' : r'.get? name = some e') : e.associations ⊆ e'.associations := by
  intro b hb
  obtain ⟨a, ha, hw⟩ := h.associations e (mem_of_get? he) b hb
  obtain ⟨b', hw'⟩ := h'.wired _ a ha
  rw [name_of_get? he] at hw hw'
  obtain ⟨-, target, -, ht, rfl, -⟩ := hw
  obtain ⟨host', target', hh', ht', rfl, hm⟩ := hw'
  obtain ⟨target₁, d, ht₁, hd, hd₁⟩ := h.exists_declared h' ht
  cases ht'.symm.trans ht₁
  cases he'.symm.trans hh'
  rwa [hd.table, ← hd₁.table]

/-- Registries made of the same steps are alike. -/
theorem Assembled.alike (hr : r.Lawful) (hr' : r'.Lawful) (hhome : r'.home = r.home) :
    r.Alike r' where
  home := hhome
  entities name := by
    cases he : r.get? name with
    | none =>
        cases he' : r'.get? name with
        | none => exact .none
        | some e' =>
            obtain ⟨e, -, hg, -⟩ := h'.exists_declared h he'
            rw [he] at hg
            cases hg
    | some e =>
        obtain ⟨e', d, he', hd, hd'⟩ := h.exists_declared h' he
        rw [he']
        refine .some ⟨hd'.name.trans hd.name.symm, hd'.table.trans hd.table.symm,
          hd'.primaryKey.trans hd.primaryKey.symm, hd'.columns.trans hd.columns.symm, ?_⟩
        -- aliases tell associations apart, so none of them is there twice
        have hn : e.associations.Nodup := .of_map _ (hr.aliases e (mem_of_get? he))
        have hn' : e'.associations.Nodup := .of_map _ (hr'.aliases e' (mem_of_get? he'))
        exact (List.perm_ext_iff_of_nodup hn hn').mpr fun b =>
          ⟨(h.associations_subset h' he he' ·), (h'.associations_subset h he' he ·)⟩

end

/-- **Steps of which none is refused lead to registries that are alike, in whichever order they
are taken.** -/
theorem alike_of_perm {home : Namespace} {steps steps' : List Step} (hp : steps.Perm steps')
    {r r' : Registry} (h : (empty home).build steps = .ok r)
    (h' : (empty home).build steps' = .ok r') : r.Lawful ∧ r'.Lawful ∧ r.Alike r' := by
  have hr : r.Lawful := run_of_build h ▸ (run_lawful home steps).1
  have hr' : r'.Lawful := run_of_build h' ▸ (run_lawful home steps').1
  have ha : r.Assembled steps := (assembled_empty home).build h
  have ha' : r'.Assembled steps' := (assembled_empty home).build h'
  exact ⟨hr, hr', ha.alike (ha'.perm hp.symm) hr hr' ((home_build h').trans (home_build h).symm)⟩

end Registry

end RowGraph
