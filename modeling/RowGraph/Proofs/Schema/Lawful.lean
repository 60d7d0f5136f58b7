import Mathlib.Data.List.Nodup
import RowGraph.Proofs.Schema.Reached

/-!
# Proofs — Schema — what a registry guarantees

Compiling never asks again whether a name of the schema means anything.  That it does is what
`Registry.Lawful` says: entities are found under their names, associations lead to defined
entities by columns these declare, and an alias names one thing on its owner.

Both steps only add: `Entity.Extends` relates an entity to what a step makes of it and
`Registry.Extends` does so for whole registries.  What is declared stays declared where
(`Registry.Wired.mono`), so a step has to be looked at for what it adds only.

**Every reached registry is lawful** (`Registry.Reached.lawful`).
-/

namespace RowGraph

/-! ### What is added -/

/-- The entity `e'` is `e`, perhaps with further associations behind those of `e`. -/
structure Entity.Extends (e e' : Entity) : Prop where
  name : e'.name = e.name
  table : e'.table = e.table
  primaryKey : e'.primaryKey = e.primaryKey
  columns : e'.columns = e.columns
  associations : e.associations <+: e'.associations

namespace Entity

theorem Extends.refl (e : Entity) : e.Extends e :=
  ⟨rfl, rfl, rfl, rfl, List.prefix_refl _⟩

theorem Extends.trans {e₁ e₂ e₃ : Entity} (h : e₁.Extends e₂) (h' : e₂.Extends e₃) :
    e₁.Extends e₃ where
  name := h'.name.trans h.name
  table := h'.table.trans h.table
  primaryKey := h'.primaryKey.trans h.primaryKey
  columns := h'.columns.trans h.columns
  associations := h.associations.trans h'.associations

theorem Extends.columnNames {e e' : Entity} (h : e.Extends e') : e'.columnNames = e.columnNames :=
  congrArg (List.map _) h.columns

theorem extends_attach (owner : String) (a : Association) (e : Entity) :
    e.Extends (Registry.attach owner a e) := by
  unfold Registry.attach
  split
  · exact ⟨rfl, rfl, rfl, rfl, List.prefix_append _ _⟩
  · exact .refl e

end Entity

/-- Every entity that is found in `r` is found in `r'` as well, with nothing taken from it. -/
def Registry.Extends (r r' : Registry) : Prop :=
  ∀ name e, r.get? name = some e → ∃ e', r'.get? name = some e' ∧ e.Extends e'

namespace Registry

theorem Extends.refl (r : Registry) : r.Extends r :=
  fun _ e h => ⟨e, h, .refl e⟩

theorem Extends.trans {r₁ r₂ r₃ : Registry} (h : r₁.Extends r₂) (h' : r₂.Extends r₃) :
    r₁.Extends r₃ := by
  intro name e he
  obtain ⟨e', he', hx⟩ := h name e he
  obtain ⟨e'', he'', hx'⟩ := h' name e' he'
  exact ⟨e'', he'', hx.trans hx'⟩

theorem get?_wire (r : Registry) (owner : String) (a : Association) (name : String) :
    (r.wire owner a).get? name = (r.get? name).map (attach owner a) := by
  have hn : (fun e : Entity => e.name == name) ∘ attach owner a = fun e => e.name == name := by
    funext e
    simp [name_attach]
  rw [get?, get?, wire, List.find?_map, hn]

theorem extends_define {r r' : Registry} {e : Entity} (h : r.define e = .ok r') : r.Extends r' := by
  obtain ⟨free, rfl⟩ := define_eq_ok h
  intro name e' he
  refine ⟨e', ?_, .refl e'⟩
  rw [get?, add, List.find?_append, show r.entities.find? _ = some e' from he]
  rfl

theorem extends_associate {r r' : Registry} {owner : String} {a wired : Association}
    (h : r.associate owner a = .ok (r', wired)) : r.Extends r' := by
  obtain ⟨host, target, -, -, -, -, -, rfl⟩ := associate_eq_ok h
  intro name e he
  refine ⟨attach owner wired e, ?_, Entity.extends_attach owner wired e⟩
  rw [get?_wire, he, Option.map_some]

/-! ### Wired associations -/

/-- The key columns of an association are declared where its kind has them. -/
def KeysDeclared (r : Registry) (host target : Entity) (a : Association) : Prop :=
  match a.kind with
  | .belongsTo => a.foreignKey ∈ host.columnNames
  | .hasOne | .hasMany => a.foreignKey ∈ target.columnNames
  | .belongsToMany => ∃ through otherKey e, a.through = some through ∧ a.otherKey = some otherKey ∧
      r.get? through = some e ∧ a.foreignKey ∈ e.columnNames ∧ otherKey ∈ e.columnNames

/-- An association of `host` has an alias and leads to a defined entity. -/
structure Wired (r : Registry) (host : Entity) (a : Association) : Prop where
  named : ∃ name, a.aliasName? = some name
  defined : ∃ target, r.get? a.target = some target ∧ r.KeysDeclared host target a

theorem KeysDeclared.mono {r r' : Registry} {host host' target target' : Entity} {a : Association}
    (h : r.KeysDeclared host target a) (hr : r.Extends r') (hh : host.Extends host')
    (ht : target.Extends target') : r'.KeysDeclared host' target' a := by
  unfold KeysDeclared at h ⊢
  cases hk : a.kind with
  | belongsTo =>
      rw [hk] at h
      simpa [hh.columnNames] using h
  | hasOne | hasMany =>
      rw [hk] at h
      simpa [ht.columnNames] using h
  | belongsToMany =>
      rw [hk] at h
      obtain ⟨through, otherKey, e, hth, hok, he, hf, ho⟩ := h
      obtain ⟨e', he', hx⟩ := hr through e he
      rw [← hx.columnNames] at hf ho
      exact ⟨through, otherKey, e', hth, hok, he', hf, ho⟩

/-- What is wired stays wired. -/
theorem Wired.mono {r r' : Registry} {host host' : Entity} {a : Association}
    (h : r.Wired host a) (hr : r.Extends r') (hh : host.Extends host') : r'.Wired host' a := by
  obtain ⟨target, ht, hk⟩ := h.defined
  obtain ⟨target', ht', hx⟩ := hr a.target target ht
  exact ⟨h.named, target', ht', hk.mono hr hh hx⟩

/-! ### What the checks establish -/

theorem requireColumn_eq_ok {e : Entity} {column : String} (h : requireColumn e column = .ok ()) :
    column ∈ e.columnNames := by
  unfold requireColumn at h
  split at h
  case isTrue hc => exact Entity.hasColumn_iff.mp hc
  case isFalse => cases h

/-- A link that is found goes through a defined entity. -/
theorem link_eq_ok {r : Registry} {owner : String} {a : Association} {e : Entity}
    {otherKey : String} (h : r.link owner a = .ok (e, otherKey)) :
    ∃ through, a.through = some through ∧ a.otherKey = some otherKey ∧
      r.get? through = some e := by
  unfold link at h
  split at h
  case h_1 => cases h
  case h_2 => cases h
  case h_3 through key ht hk =>
      obtain ⟨e', he, h⟩ := bind_eq_ok h
      cases h
      exact ⟨through, ht, hk, entity_eq_ok he⟩

theorem requireKeys_eq_ok {r : Registry} {host target : Entity} {a : Association}
    (h : r.requireKeys host target a = .ok ()) : r.KeysDeclared host target a := by
  unfold requireKeys at h
  unfold KeysDeclared
  cases hk : a.kind with
  | belongsTo | hasOne | hasMany =>
      rw [hk] at h
      exact requireColumn_eq_ok h
  | belongsToMany =>
      rw [hk] at h
      obtain ⟨⟨e, otherKey⟩, hl, h⟩ := bind_eq_ok h
      obtain ⟨_, hf, ho⟩ := bind_eq_ok h
      obtain ⟨through, hth, hok, he⟩ := link_eq_ok hl
      exact ⟨through, otherKey, e, hth, hok, he, requireColumn_eq_ok hf, requireColumn_eq_ok ho⟩

theorem requireFreeAlias_eq_ok {host : Entity} {aliasName : String}
    (h : requireFreeAlias host aliasName = .ok ()) :
    aliasName ∉ host.associations.map (·.aliasName) ∧ aliasName ∉ host.columnNames := by
  unfold requireFreeAlias at h
  split at h
  case isTrue => cases h
  case isFalse hf =>
      rw [Bool.or_eq_true, not_or] at hf
      refine ⟨fun hm => hf.1 ?_, fun hm => hf.2 (Entity.hasColumn_iff.mpr hm)⟩
      simpa [Entity.association?] using hm

/-! ### Lawful registries -/

/-- What compiling relies on. -/
structure Lawful (r : Registry) : Prop where
  /-- No two entities have one name. -/
  distinct : (r.entities.map (·.name)).Nodup
  /-- Each is found under its own. -/
  found : ∀ e ∈ r.entities, r.get? e.name = some e
  /-- Columns have different names and the primary key is one of them. -/
  keyed : ∀ e ∈ r.entities, e.Keyed
  /-- Associations lead to defined entities, by declared columns. -/
  wired : ∀ e ∈ r.entities, ∀ a ∈ e.associations, r.Wired e a
  /-- No two associations of an entity have one alias. -/
  aliases : ∀ e ∈ r.entities, (e.associations.map (·.aliasName)).Nodup
  /-- No alias is a column of its entity. -/
  free : ∀ e ∈ r.entities, ∀ a ∈ e.associations, a.aliasName ∉ e.columnNames

/-- What has a key of its own is found by it. -/
theorem find?_key {α : Type} {key : α → String} {as : List α} (h : (as.map key).Nodup) {a : α}
    (ha : a ∈ as) : as.find? (key · == key a) = some a := by
  obtain ⟨b, hb⟩ : ∃ b, as.find? (key · == key a) = some b := by
    rw [← Option.isSome_iff_exists, List.find?_isSome]
    exact ⟨a, ha, beq_self_eq_true _⟩
  have hk : key b = key a := beq_iff_eq.mp (List.find?_some (p := (key · == key a)) hb)
  rw [hb, List.inj_on_of_nodup_map h (List.mem_of_find?_eq_some hb) ha hk]

/-- An entity is found under its name, which no other has. -/
theorem get?_of_mem {r : Registry} {e : Entity} (he : e ∈ r.entities) : r.get? e.name = some e :=
  find?_key r.nodup he

/-- The names of the entities are those that are defined. -/
theorem mem_map_name {r : Registry} {name : String} :
    name ∈ r.entities.map (·.name) ↔ ∃ e, r.get? name = some e := by
  constructor
  · intro hm
    obtain ⟨e, he, rfl⟩ := List.mem_map.mp hm
    exact ⟨e, get?_of_mem he⟩
  · rintro ⟨e, he⟩
    exact List.mem_map.mpr ⟨e, mem_of_get? he, name_of_get? he⟩

/-- An association is found under its alias. -/
theorem Lawful.association?_of_mem {r : Registry} (h : r.Lawful) {host : Entity}
    (hh : host ∈ r.entities) {a : Association} (ha : a ∈ host.associations) :
    host.association? a.aliasName = some a :=
  find?_key (h.aliases host hh) ha

theorem lawful_empty (home : Namespace) : (empty home).Lawful where
  distinct := List.nodup_nil
  found := fun _ h => absurd h List.not_mem_nil
  keyed := fun _ h => absurd h List.not_mem_nil
  wired := fun _ h => absurd h List.not_mem_nil
  aliases := fun _ h => absurd h List.not_mem_nil
  free := fun _ h => absurd h List.not_mem_nil

/-- A defined entity has no associations yet, and those of the others stay wired. -/
theorem Lawful.define {r r' : Registry} (h : r.Lawful) {e : Entity} (ha : e.associations = [])
    (hr : r.define e = .ok r') : r'.Lawful := by
  have hx := extends_define hr
  obtain ⟨free, rfl⟩ := define_eq_ok hr
  have hmem : ∀ e' ∈ (r.add e free).entities, e' ∈ r.entities ∨ e' = e := by simp [add]
  refine ⟨(r.add e free).nodup, fun e' he' => get?_of_mem he', fun e' _ => e'.keyed, ?_, ?_, ?_⟩
  · intro e' he' a haa
    rcases hmem e' he' with he' | rfl
    · exact (h.wired e' he' a haa).mono hx (.refl e')
    · simp [ha] at haa
  · intro e' he'
    rcases hmem e' he' with he' | rfl
    · exact h.aliases e' he'
    · simp [ha]
  · intro e' he' a haa
    rcases hmem e' he' with he' | rfl
    · exact h.free e' he' a haa
    · simp [ha] at haa

/-- The associations of an entity behind `attach` are those it had, and the one attached if it is
the owner. -/
theorem mem_associations_attach {owner : String} {a b : Association} {e : Entity}
    (h : b ∈ (attach owner a e).associations) :
    b ∈ e.associations ∨ e.name = owner ∧ b = a := by
  unfold attach at h
  split at h
  case isTrue ho => simpa [ho] using h
  case isFalse => exact .inl h

theorem Lawful.associate {r r' : Registry} (h : r.Lawful) {owner : String} {a wired : Association}
    (hr : r.associate owner a = .ok (r', wired)) : r'.Lawful := by
  have hx := extends_associate hr
  obtain ⟨host, target, hhost, htarget, hwired, hkeys, hfree, rfl⟩ := associate_eq_ok hr
  obtain ⟨hal, hcol⟩ := requireFreeAlias_eq_ok hfree
  have hw : r.Wired host wired := by
    refine ⟨⟨_, congrArg Association.aliasName? hwired⟩, target, ?_, requireKeys_eq_ok hkeys⟩
    rw [hwired]
    exact htarget
  -- the owner is one entity, so what was checked of the host holds of it
  have hself : ∀ e ∈ r.entities, e.name = owner → e = host := by
    intro e he hname
    have hf := h.found e he
    rw [hname, hhost] at hf
    exact (Option.some.inj hf).symm
  refine ⟨(r.wire owner wired).nodup, fun e he => get?_of_mem he, fun e _ => e.keyed, ?_, ?_, ?_⟩
  · intro e' he' b hb
    obtain ⟨e, he, rfl⟩ := List.mem_map.mp he'
    have hext := Entity.extends_attach owner wired e
    rcases mem_associations_attach hb with hb | ⟨hname, rfl⟩
    · exact (h.wired e he b hb).mono hx hext
    · obtain rfl := hself e he hname
      exact hw.mono hx hext
  · intro e' he'
    obtain ⟨e, he, rfl⟩ := List.mem_map.mp he'
    unfold attach
    split
    case isTrue hname =>
        obtain rfl := hself e he hname
        rw [List.map_append, List.map_singleton, ← List.concat_eq_append]
        exact (h.aliases e he).concat hal
    case isFalse => exact h.aliases e he
  · intro e' he' b hb
    obtain ⟨e, he, rfl⟩ := List.mem_map.mp he'
    rw [(Entity.extends_attach owner wired e).columnNames]
    rcases mem_associations_attach hb with hb | ⟨hname, rfl⟩
    · exact h.free e he b hb
    · obtain rfl := hself e he hname
      exact hcol

/-- **Every reached registry is lawful.** -/
theorem Reached.lawful {r : Registry} (h : r.Reached) : r.Lawful := by
  induction h with
  | empty home => exact lawful_empty home
  | define h hr ih => exact ih.define rfl hr
  | associate h hr ih => exact ih.associate hr

end Registry

end RowGraph
