import RowGraph.Proofs.Schema.Reached

/-!
# Proofs — refused for the first requirement that is not met

A computation that checks one condition after another is described by the list of what it requires,
each with the reason of a refusal (`Requirement`).  It `Requires` them if it has a result exactly
where all are met, and is refused otherwise for the reason of the first that is not.

One thing after another requires what the first does, and then what the second does
(`Requires.bind`), so the list of a computation is put together as the computation is.
-/

namespace RowGraph

/-- A condition, and the reason of a refusal where it is not met. -/
structure Requirement where
  met : Prop
  reason : Error

/-- There is a result exactly if the requirements are met.  Where there is none, the reason is that
of the first requirement which is not. -/
structure Requires {α : Type} (x : Except Error α) (qs : List Requirement) : Prop where
  ok_iff : (∃ a, x = .ok a) ↔ ∀ q ∈ qs, q.met
  error_iff : ∀ e, x = .error e ↔
    ∃ ps q rest, qs = ps ++ q :: rest ∧ (∀ p ∈ ps, p.met) ∧ ¬ q.met ∧ q.reason = e

section

variable {α β : Type} {x : Except Error α} {q : Requirement} {qs : List Requirement}

theorem requires_nil : Requires x [] ↔ ∃ a, x = .ok a := by
  constructor
  · intro h
    exact h.ok_iff.mpr fun _ hq => absurd hq List.not_mem_nil
  · rintro ⟨a, rfl⟩
    refine ⟨⟨fun _ _ hq => absurd hq List.not_mem_nil, fun _ => ⟨a, rfl⟩⟩, fun e => ?_⟩
    constructor
    · intro h
      cases h
    · rintro ⟨_ | ⟨_, _⟩, _, _, h, -⟩ <;> cases h

/-- Behind a requirement that is met the others decide. -/
theorem requires_cons_of_met (hq : q.met) : Requires x (q :: qs) ↔ Requires x qs := by
  have hall : (∀ p ∈ q :: qs, p.met) ↔ ∀ p ∈ qs, p.met := by simp [hq]
  have hfirst : ∀ e, (∃ ps p rest, q :: qs = ps ++ p :: rest ∧ (∀ p ∈ ps, p.met) ∧ ¬ p.met ∧
        p.reason = e) ↔
      ∃ ps p rest, qs = ps ++ p :: rest ∧ (∀ p ∈ ps, p.met) ∧ ¬ p.met ∧ p.reason = e := by
    intro e
    constructor
    · rintro ⟨_ | ⟨p, ps⟩, p', rest, h, hps, hp, he⟩
      · cases h
        exact absurd hq hp
      · cases h
        exact ⟨ps, p', rest, rfl, (List.forall_mem_cons.mp hps).2, hp, he⟩
    · rintro ⟨ps, p, rest, rfl, hps, hp, he⟩
      exact ⟨q :: ps, p, rest, rfl, List.forall_mem_cons.mpr ⟨hq, hps⟩, hp, he⟩
  constructor
  · exact fun h => ⟨h.ok_iff.trans hall, fun e => (h.error_iff e).trans (hfirst e)⟩
  · exact fun h => ⟨h.ok_iff.trans hall.symm, fun e => (h.error_iff e).trans (hfirst e).symm⟩

/-- A requirement that is not met decides, whatever stands behind it. -/
theorem requires_cons_of_not_met (hq : ¬ q.met) :
    Requires x (q :: qs) ↔ x = .error q.reason := by
  constructor
  · intro h
    exact (h.error_iff q.reason).mpr
      ⟨[], q, qs, rfl, fun _ hp => absurd hp List.not_mem_nil, hq, rfl⟩
  · rintro rfl
    refine ⟨⟨fun ⟨_, h⟩ => (by cases h), fun h => absurd (h q List.mem_cons_self) hq⟩, fun e => ?_⟩
    constructor
    · intro h
      cases h
      exact ⟨[], q, qs, rfl, fun _ hp => absurd hp List.not_mem_nil, hq, rfl⟩
    · rintro ⟨_ | ⟨p, ps⟩, p', rest, h, hps, hp, rfl⟩
      · cases h
        rfl
      · cases h
        exact absurd (hps q List.mem_cons_self) hq

theorem requires_cons :
    Requires x (q :: qs) ↔ (q.met → Requires x qs) ∧ (¬ q.met → x = .error q.reason) := by
  by_cases hq : q.met
  · rw [requires_cons_of_met hq]
    exact ⟨fun h => ⟨fun _ => h, fun hn => absurd hq hn⟩, fun h => h.1 hq⟩
  · rw [requires_cons_of_not_met hq]
    exact ⟨fun h => ⟨fun hm => absurd hm hq, fun _ => h⟩, fun h => h.2 hq⟩

/-! ### One thing after another -/

theorem requires_ok (a : α) : Requires (.ok a) [] := requires_nil.mpr ⟨a, rfl⟩

theorem requires_ite {c P : Prop} [Decidable c] (hc : c ↔ P) (a : α) (e : Error) :
    Requires (if c then .ok a else .error e) [⟨P, e⟩] := by
  refine requires_cons.mpr ⟨fun hP => ?_, fun hP => if_neg fun h => hP (hc.mp h)⟩
  rw [if_pos (hc.mpr hP)]
  exact requires_ok a

/-- The second requires something only where the first has a result. -/
theorem Requires.bind {f : α → Except Error β} {ps : List Requirement} (hx : Requires x ps)
    (hf : ∀ a, x = .ok a → Requires (f a) qs) : Requires (x >>= f) (ps ++ qs) := by
  induction ps with
  | nil =>
      obtain ⟨a, rfl⟩ := requires_nil.mp hx
      exact hf a rfl
  | cons p ps ih =>
      obtain ⟨hmet, hnot⟩ := requires_cons.mp hx
      refine requires_cons.mpr ⟨fun hp => ih (hmet hp), fun hp => ?_⟩
      rw [hnot hp]
      rfl

theorem Requires.bind_ok {f : α → β} (hx : Requires x qs) :
    Requires (x >>= fun a => (.ok (f a) : Except Error β)) qs := by
  rw [← List.append_nil qs]
  exact hx.bind fun a _ => requires_ok (f a)

theorem requires_forM {f : α → Except Error Unit} {qs : α → List Requirement} :
    ∀ {as : List α}, (∀ a ∈ as, Requires (f a) (qs a)) → Requires (as.forM f) (as.flatMap qs)
  | [], _ => requires_ok ()
  | a :: as, h => by
      obtain ⟨ha, has⟩ := List.forall_mem_cons.mp h
      exact ha.bind fun _ _ => requires_forM has

theorem Requires.settles {R : Error → Prop} (hx : Requires x qs) (hR : ∀ q ∈ qs, R q.reason) :
    Settles R x (∀ q ∈ qs, q.met) where
  ok_iff := hx.ok_iff
  reason e he := by
    obtain ⟨ps, q, rest, rfl, -, -, rfl⟩ := (hx.error_iff e).mp he
    exact hR q (List.mem_append_right ps List.mem_cons_self)

/-- Computations that require the same have results in the same cases, and are refused for the same
reasons. -/
theorem Requires.agree {y : Except Error β} (hx : Requires x qs) (hy : Requires y qs) :
    ((∃ a, x = .ok a) ↔ ∃ b, y = .ok b) ∧ ∀ e, x = .error e ↔ y = .error e :=
  ⟨hx.ok_iff.trans hy.ok_iff.symm, fun e => (hx.error_iff e).trans (hy.error_iff e).symm⟩

end

/-! ### What is looked up -/

namespace Requirement

/-- There is an entity of this name. -/
def defined (r : Registry) (name : String) : Requirement :=
  ⟨∃ e, r.get? name = some e, .unknownEntity name⟩

/-- The entity of this name declares the column. -/
def declared (r : Registry) (name column : String) : Requirement :=
  ⟨∃ e, r.get? name = some e ∧ column ∈ e.columnNames, .unknownAttribute name column⟩

/-- What a result requires by itself: nothing if it is there. -/
def ofResult {α : Type} : Except Error α → List Requirement
  | .ok _ => []
  | .error e => [⟨False, e⟩]

variable {r : Registry} {name : String} {e : Entity}

/-- Of an entity that is found the column is declared or not. -/
theorem declared_eq (he : r.get? name = some e) (column : String) :
    declared r name column = ⟨column ∈ e.columnNames, .unknownAttribute e.name column⟩ := by
  simp [declared, he, Registry.name_of_get? he]

end Requirement

theorem requires_ofResult {α : Type} (x : Except Error α) :
    Requires x (Requirement.ofResult x) := by
  cases x with
  | ok a => exact requires_ok a
  | error e => exact requires_cons.mpr ⟨fun h => h.elim, fun _ => rfl⟩

theorem Registry.requires_entity (r : Registry) (name : String) :
    Requires (r.entity name) [.defined r name] := by
  refine requires_cons.mpr ⟨?_, fun h => ?_⟩
  · rintro ⟨e, he⟩
    rw [entity, he]
    exact requires_ok e
  · have hn : r.get? name = none := Option.eq_none_iff_forall_ne_some.mpr fun e he => h ⟨e, he⟩
    rw [entity, hn]
    rfl

end RowGraph
