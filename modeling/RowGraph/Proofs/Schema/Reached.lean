import RowGraph.Proofs.Draw
import RowGraph.Schema.Registry

/-!
# Proofs — Schema — the registries that can be reached

A registry is reached (`Registry.Reached`) if it comes from an empty one by defining entities,
each out of a declaration, and wiring associations.  What holds of every reached registry is kept
by each of the two steps.

What work on a registry comes to is given by an equation for either kind: a definition adds the
entity or is refused with the registry as it was (`Registry.outcome_defining`), and so an
association is wired or refused (`Registry.outcome_associating`).
-/

namespace RowGraph

/-! ### Entities -/

/-- The columns have different names and the primary key is one of them. -/
structure Entity.Keyed (e : Entity) : Prop where
  nodup : e.columnNames.Nodup
  key_mem : e.primaryKey ∈ e.columnNames

/-- **Every entity is keyed.** -/
theorem Entity.keyed (e : Entity) : e.Keyed := ⟨e.nodup, e.key_mem⟩

theorem Entity.hasColumn_iff {e : Entity} {name : String} :
    e.hasColumn name ↔ name ∈ e.columnNames := by
  simp [hasColumn, column?, columnNames]

namespace Registry

/-! ### What work comes to -/

variable {r r' : Registry} {name owner : String} {e : Entity} {a wired : Association}

/-- A definition is refused with the registry as it was. -/
theorem outcome_defining (r : Registry) (e : Entity) :
    outcome (defining e) r =
      if free : r.get? e.name = none then (.ok (), r.add e free)
      else (.error (.duplicateEntity e.name), r) := by
  rw [defining, outcome_bind, outcome_get]
  dsimp only
  split
  case h_1 e' h => rw [outcome_throw, dif_neg (by simp [h])]
  case h_2 free => rw [outcome_set, dif_pos free]

/-- An association as it will be wired, once everything is checked. -/
def checked (r : Registry) (owner : String) (a : Association) : Except Error Association := do
  let host ← r.entity owner
  let target ← r.entity a.target
  r.requireKeys host target (a.withDefaultAlias target.table)
  requireFreeAlias host (a.withDefaultAlias target.table).aliasName
  return a.withDefaultAlias target.table

/-- An association is wired once everything is checked, and refused with the registry as it was. -/
theorem outcome_associating (r : Registry) (owner : String) (a : Association) :
    outcome (associating owner a) r = committed (r.checked owner a) (r.wire owner) r := by
  rw [associating, outcome_bind, outcome_get]
  refine outcome_lift_bind fun host hh => outcome_lift_bind fun target _ => ?_
  refine outcome_lift_bind fun _ _ => outcome_lift_bind fun _ _ => ?_
  rw [outcome_bind, outcome_lift, hh]
  rfl

theorem define_eq (r : Registry) (e : Entity) :
    r.define e =
      if free : r.get? e.name = none then .ok (r.add e free)
      else .error (.duplicateEntity e.name) := by
  rw [define, accepted, outcome_defining]
  by_cases free : r.get? e.name = none
  · rw [dif_pos free, dif_pos free]
    rfl
  · rw [dif_neg free, dif_neg free]
    rfl

theorem associate_eq (r : Registry) (owner : String) (a : Association) :
    r.associate owner a =
      r.checked owner a >>= fun wired => .ok (r.wire owner wired, wired) := by
  rw [associate, accepted_of_committed (r.outcome_associating owner a)]
  cases r.checked owner a <;> rfl

/-! ### Steps -/

/-- The registries that defining and associating lead to.  Entities are defined as declarations make
them, without associations.  `Registry.define` takes any entity, but one that was wired already, in
another registry, could lead to entities which are not defined here. -/
inductive Reached : Registry → Prop where
  | empty (home : Namespace) : Reached (.empty home)
  | define {r r' : Registry} (h : Reached r) {d : Declaration} (hr : r.define d.entity = .ok r') :
      Reached r'
  | associate {r r' : Registry} (h : Reached r) {owner : String} {a wired : Association}
      (hr : r.associate owner a = .ok (r', wired)) : Reached r'

theorem define_eq_ok (h : r.define e = .ok r') :
    ∃ free : r.get? e.name = none, r' = r.add e free := by
  rw [define_eq] at h
  split at h
  case isTrue free => exact ⟨free, (Except.ok.inj h).symm⟩
  case isFalse => cases h

theorem entity_eq_ok (h : r.entity name = .ok e) : r.get? name = some e := by
  unfold entity at h
  split at h
  case h_1 e' he => rw [he, Except.ok.inj h]
  case h_2 => cases h

/-- What is checked of an association: it leads from a defined owner to a defined target, its keys
are where they have to be and its alias is free. -/
theorem checked_eq_ok (h : r.checked owner a = .ok wired) :
    ∃ host target, r.get? owner = some host ∧ r.get? a.target = some target ∧
      wired = a.withDefaultAlias target.table ∧ r.requireKeys host target wired = .ok () ∧
      requireFreeAlias host wired.aliasName = .ok () := by
  unfold checked at h
  obtain ⟨host, hh, h⟩ := bind_eq_ok h
  obtain ⟨target, ht, h⟩ := bind_eq_ok h
  obtain ⟨_, hk, h⟩ := bind_eq_ok h
  obtain ⟨_, hf, h⟩ := bind_eq_ok h
  obtain rfl := Except.ok.inj h
  exact ⟨host, target, entity_eq_ok hh, entity_eq_ok ht, rfl, hk, hf⟩

/-- An association is wired as it was checked. -/
theorem associate_eq_ok (h : r.associate owner a = .ok (r', wired)) :
    ∃ host target, r.get? owner = some host ∧ r.get? a.target = some target ∧
      wired = a.withDefaultAlias target.table ∧ r.requireKeys host target wired = .ok () ∧
      requireFreeAlias host wired.aliasName = .ok () ∧ r' = r.wire owner wired := by
  rw [associate_eq] at h
  obtain ⟨wired', hc, h⟩ := bind_eq_ok h
  obtain ⟨rfl, rfl⟩ := Prod.mk.inj (Except.ok.inj h)
  obtain ⟨host, target, hh, ht, hw, hk, hf⟩ := checked_eq_ok hc
  exact ⟨host, target, hh, ht, hw, hk, hf, rfl⟩

theorem name_of_get? (h : r.get? name = some e) : e.name = name :=
  beq_iff_eq.mp (List.find?_some (p := fun e : Entity => e.name == name) h)

theorem mem_of_get? (h : r.get? name = some e) : e ∈ r.entities :=
  List.mem_of_find?_eq_some h

/-! ### A library

Books have chapters, and tags through a table of links. -/

def book : Declaration := (Declaration.start "book").withColumn "title" .string

def chapter : Declaration :=
  ((Declaration.start "chapter").withColumn "heading" .string).withColumn "book_id" .int64

def tag : Declaration := (Declaration.start "tag").withColumn "label" .string

def bookTag : Declaration :=
  ((Declaration.start "book_tag").withColumn "book_id" .int64).withColumn "tag_id" .int64

def chapters : Association := ⟨.hasMany, "chapter", "book_id", none, none, some "chapters"⟩

def tags : Association :=
  ⟨.belongsToMany, "tag", "book_id", some "tag_id", some "book_tag", some "tags"⟩

def library : Registry where
  home := .empty
  entities :=
    [attach "book" tags (attach "book" chapters book.entity), chapter.entity, tag.entity,
      bookTag.entity]
  nodup := by decide

theorem reached_library : library.Reached := by
  have h₁ : Reached ⟨.empty, [book.entity], by decide⟩ := .define (.empty .empty) (d := book) rfl
  have h₂ : Reached ⟨.empty, [book.entity, chapter.entity], by decide⟩ :=
    .define (d := chapter) h₁ rfl
  have h₃ : Reached ⟨.empty, [book.entity, chapter.entity, tag.entity], by decide⟩ :=
    .define (d := tag) h₂ rfl
  have h₄ : Reached ⟨.empty, [book.entity, chapter.entity, tag.entity, bookTag.entity],
      by decide⟩ :=
    .define (d := bookTag) h₃ rfl
  have hc : associate ⟨.empty, [book.entity, chapter.entity, tag.entity, bookTag.entity],
      by decide⟩ "book" chapters = .ok (⟨.empty, [attach "book" chapters book.entity,
        chapter.entity, tag.entity, bookTag.entity], by decide⟩, chapters) := rfl
  have ht : associate ⟨.empty, [attach "book" chapters book.entity, chapter.entity, tag.entity,
      bookTag.entity], by decide⟩ "book" tags = .ok (library, tags) := rfl
  exact .associate (.associate h₄ hc) ht

end Registry

end RowGraph
