import RowGraph.Proofs.Requirement
import RowGraph.Proofs.Schema.Run

/-!
# Proofs — Schema — which associations can be wired

What wiring an association requires is a list in the order in which it is looked at
(`Registry.wiringRequirements`): the owner and the target are defined, the key columns are declared
where the kind of the association needs them, and the alias is free on the owner.  The alias is
filled in before anything is checked, so that it is named where a part of a link is missing.

**An association is wired exactly if all of it is met** (`Registry.associate_requires`), and then it
stands behind those of its owner and nothing else is another.  It is refused for the first that is
not met, whatever else is wrong with it, and the registry stays as it was.
-/

namespace RowGraph.Registry

/-! ### What is required -/

/-- The alias an association is wired under: its own, or the table of its target. -/
def wiredAlias (r : Registry) (a : Association) : String :=
  a.aliasName?.getD ((r.get? a.target).elim "" (·.table))

/-- The parts of a link are given, and its entity is defined. -/
def linkRequirements (r : Registry) (owner aliasName : String) (a : Association) :
    List Requirement :=
  [⟨a.through.isSome, .linkPartMissing owner aliasName .throughEntity⟩,
    ⟨a.otherKey.isSome, .linkPartMissing owner aliasName .otherKey⟩,
    .defined r (a.through.getD "")]

/-- The key columns are declared: by the owner, by the target, or both by the entity linked
through. -/
def keyRequirements (r : Registry) (owner aliasName : String) (a : Association) :
    List Requirement :=
  match a.kind with
  | .belongsTo => [.declared r owner a.foreignKey]
  | .hasOne | .hasMany => [.declared r a.target a.foreignKey]
  | .belongsToMany =>
      r.linkRequirements owner aliasName a ++
        [.declared r (a.through.getD "") a.foreignKey,
          .declared r (a.through.getD "") (a.otherKey.getD "")]

/-- The alias is neither that of another association of the owner nor one of its columns. -/
def freeAlias (r : Registry) (owner aliasName : String) : Requirement :=
  ⟨∃ host, r.get? owner = some host ∧ aliasName ∉ host.associations.map (·.aliasName) ∧
    aliasName ∉ host.columnNames, .duplicateAlias owner aliasName⟩

/-- What wiring an association requires, in this order. -/
def wiringRequirements (r : Registry) (owner : String) (a : Association) : List Requirement :=
  .defined r owner :: .defined r a.target ::
    (r.keyRequirements owner (r.wiredAlias a) a ++ [r.freeAlias owner (r.wiredAlias a)])

/-! ### What is checked -/

variable {r : Registry} {owner : String} {host target : Entity} {a : Association}

theorem requires_requireColumn (e : Entity) (column : String) :
    Requires (requireColumn e column) [⟨column ∈ e.columnNames, .unknownAttribute e.name column⟩] :=
  requires_ite Entity.hasColumn_iff () _

theorem requires_declared {name : String} {e : Entity} (he : r.get? name = some e)
    (column : String) : Requires (requireColumn e column) [.declared r name column] := by
  rw [Requirement.declared_eq he]
  exact requires_requireColumn e column

theorem requires_link (r : Registry) (owner : String) (a : Association) :
    Requires (r.link owner a) (r.linkRequirements owner a.aliasName a) := by
  unfold link linkRequirements
  cases a.through with
  | none => exact (requires_cons_of_not_met (by simp)).mpr rfl
  | some through =>
      rw [requires_cons_of_met (by simp)]
      cases a.otherKey with
      | none => exact (requires_cons_of_not_met (by simp)).mpr rfl
      | some otherKey =>
          rw [requires_cons_of_met (by simp)]
          exact (r.requires_entity through).bind_ok

theorem requires_requireKeys (hh : r.get? owner = some host) (ht : r.get? a.target = some target) :
    Requires (r.requireKeys host target a) (r.keyRequirements owner a.aliasName a) := by
  unfold requireKeys keyRequirements
  cases a.kind with
  | belongsTo => exact requires_declared hh a.foreignKey
  | hasOne | hasMany => exact requires_declared ht a.foreignKey
  | belongsToMany =>
      have hl := r.requires_link host.name a
      rw [name_of_get? hh] at hl
      rw [name_of_get? hh]
      refine hl.bind fun l hl => ?_
      obtain ⟨through, hth, hok, he⟩ := link_eq_ok hl
      rw [hth, hok]
      exact (requires_declared he a.foreignKey).bind fun _ _ => requires_declared he l.2

theorem requires_requireFreeAlias (hh : r.get? owner = some host) (aliasName : String) :
    Requires (requireFreeAlias host aliasName) [r.freeAlias owner aliasName] := by
  have hfree : r.freeAlias owner aliasName =
      ⟨¬ ((host.association? aliasName).isSome || host.hasColumn aliasName),
        .duplicateAlias host.name aliasName⟩ := by
    simp [freeAlias, hh, name_of_get? hh, Entity.association?, Entity.hasColumn_iff]
  rw [hfree, requireFreeAlias]
  refine requires_cons.mpr ⟨fun h => ?_, fun h => if_pos (not_not.mp h)⟩
  rw [if_neg h]
  exact requires_ok ()

theorem aliasName_withDefaultAlias (ht : r.get? a.target = some target) :
    (a.withDefaultAlias target.table).aliasName = r.wiredAlias a := by
  rw [wiredAlias, ht]
  rfl

/-! ### What is wired -/

/-- The registry `r'` is `r` with an association behind those of the owner, and nothing else in it
is another. -/
structure Adds (r r' : Registry) (owner : String) (wired : Association) : Prop where
  home : r'.home = r.home
  names : r'.entities.map (·.name) = r.entities.map (·.name)
  gained : ∀ host, r.get? owner = some host →
    r'.get? owner = some { host with associations := host.associations ++ [wired] }
  others : ∀ name, name ≠ owner → r'.get? name = r.get? name

theorem adds_wire (r : Registry) (owner : String) (wired : Association) :
    r.Adds (r.wire owner wired) owner wired where
  home := rfl
  names := map_name_attach owner wired r.entities
  gained host hh := by
    rw [get?_wire, hh, Option.map_some, attach, if_pos (name_of_get? hh)]
  others name hn := by
    rw [get?_wire]
    cases he : r.get? name with
    | none => rfl
    | some e =>
        have hne : e.name ≠ owner := by
          rw [name_of_get? he]
          exact hn
        rw [Option.map_some, attach, if_neg hne]

/-- **An association is wired exactly if what it requires is met**, and it is refused for the first
requirement that is not.  Once wired it has its alias and stands behind the associations of its
owner, and nothing else is another; if it is refused the registry stays as it was. -/
theorem associate_requires (r : Registry) (owner : String) (a : Association) :
    Requires (r.associate owner a) (r.wiringRequirements owner a) ∧
    (∀ r' wired, r.associate owner a = .ok (r', wired) →
      wired = { a with aliasName? := some (r.wiredAlias a) } ∧ r.Adds r' owner wired ∧
        r.after (.associate owner a) = r') ∧
    ∀ e, r.associate owner a = .error e → r.after (.associate owner a) = r := by
  refine ⟨?_, fun r' wired h => ?_, fun e h => ?_⟩
  · rw [associate_eq]
    refine Requires.bind_ok ?_
    refine (r.requires_entity owner).bind fun host hh => ?_
    refine (r.requires_entity a.target).bind fun target ht => ?_
    have hh := entity_eq_ok hh
    have ht := entity_eq_ok ht
    -- filling in the alias leaves the kind, the target and the keys
    have hkeys : Requires (r.requireKeys host target (a.withDefaultAlias target.table))
        (r.keyRequirements owner (r.wiredAlias a) a) := by
      rw [← aliasName_withDefaultAlias ht]
      exact requires_requireKeys (a := a.withDefaultAlias target.table) hh ht
    have hfree : Requires (requireFreeAlias host (a.withDefaultAlias target.table).aliasName)
        [r.freeAlias owner (r.wiredAlias a)] := by
      rw [aliasName_withDefaultAlias ht]
      exact requires_requireFreeAlias hh _
    exact hkeys.bind fun _ _ => hfree.bind_ok
  · have hafter : r.after (.associate owner a) = r' := after_of_associate h
    obtain ⟨host, target, -, ht, rfl, -, -, rfl⟩ := associate_eq_ok h
    refine ⟨?_, adds_wire r owner _, hafter⟩
    rw [wiredAlias, ht]
    rfl
  · exact after_of_attempt_error (by rw [attempt_associate, h]; rfl)

/-- A chapter's book gets the table of its target for an alias.  Of an association that lacks its
other key and has the alias of a column, the key that is missing is named. -/
theorem associate_requires_library :
    (∃ r', library.associate "chapter" ⟨.belongsTo, "book", "book_id", none, none, none⟩ =
        .ok (r', ⟨.belongsTo, "book", "book_id", none, none, some "book"⟩) ∧
      library.Adds r' "chapter" ⟨.belongsTo, "book", "book_id", none, none, some "book"⟩) ∧
    library.associate "book" ⟨.belongsToMany, "tag", "book_id", none, some "book_tag",
        some "title"⟩ = .error (.linkPartMissing "book" "title" .otherKey) ∧
      library.after (.associate "book" ⟨.belongsToMany, "tag", "book_id", none, some "book_tag",
        some "title"⟩) = library := by
  obtain ⟨-, hok, -⟩ := associate_requires library "chapter"
    ⟨.belongsTo, "book", "book_id", none, none, none⟩
  obtain ⟨hq, -, herror⟩ := associate_requires library "book"
    ⟨.belongsToMany, "tag", "book_id", none, some "book_tag", some "title"⟩
  refine ⟨⟨_, rfl, (hok _ _ rfl).2.1⟩, ?_⟩
  have hmissing : library.associate "book" ⟨.belongsToMany, "tag", "book_id", none,
      some "book_tag", some "title"⟩ = .error (.linkPartMissing "book" "title" .otherKey) := by
    -- the owner, the target and the entity linked through are given
    refine (hq.error_iff _).mpr ⟨[_, _, _], _, _, rfl, ?_, ?_, rfl⟩
    · simp only [List.forall_mem_cons]
      exact ⟨⟨_, rfl⟩, ⟨_, rfl⟩, rfl, fun _ hp => absurd hp List.not_mem_nil⟩
    · simp
  exact ⟨hmissing, herror _ hmissing⟩

end RowGraph.Registry
