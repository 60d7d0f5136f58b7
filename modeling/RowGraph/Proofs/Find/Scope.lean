import RowGraph.Proofs.Find.Tables
import RowGraph.Proofs.Schema.Lawful

/-!
# Proofs — Find — names in scope

The tables of a find stand under aliases.  `Aliases.Joined` is the judgement for joins made one
after the other: each brings in the table of a defined entity, where a column of a table brought in
before it is equal to one of its own, both declared.  What it is for a column to be declared is
said by `Aliases.Declares`.

* `Registry.Lawful.joined_inclusions`: on a lawful registry the joins of inclusions are in order;
* `Registry.declares_of_resolve`: a reference that is resolved is declared;
* `Entity.mem_columnNames_of_projection`: the columns read of a table are declared.
-/

namespace RowGraph

/-! ### Tables under aliases -/

/-- The tables of a statement in the order they are brought in: the alias of each and the entity
whose table it is. -/
abbrev Aliases := List (String × Entity)

namespace Aliases

/-- The column is declared by the entity whose table stands under its qualifier. -/
def Declares (Γ : Aliases) (c : TableColumn) : Prop :=
  ∃ e, (c.aliasName, e) ∈ Γ ∧ c.column ∈ e.columnNames

theorem Declares.mono {Γ Δ : Aliases} {c : TableColumn} (h : Γ.Declares c) (hs : Γ ⊆ Δ) :
    Δ.Declares c := by
  obtain ⟨e, he, hc⟩ := h
  exact ⟨e, hs he, hc⟩

/-- Joins made one after the other, from the tables `Γ` to the tables `Δ`. -/
inductive Joined (r : Registry) : Aliases → List Join → Aliases → Prop where
  | nil (Γ : Aliases) : Joined r Γ [] Γ
  | cons {Γ Δ : Aliases} {j : Join} {js : List Join} {e : Entity}
      (defined : r.get? j.entity = some e) (table : j.table = r.home.qualify e.table)
      (left : Γ.Declares j.left) (own : j.right.aliasName = j.aliasName)
      (right : j.right.column ∈ e.columnNames) (rest : Joined r (Γ ++ [(j.aliasName, e)]) js Δ) :
      Joined r Γ (j :: js) Δ

namespace Joined

variable {r : Registry} {Γ Δ Θ : Aliases} {js ks : List Join}

theorem append (h : Joined r Γ js Δ) (h' : Joined r Δ ks Θ) : Joined r Γ (js ++ ks) Θ := by
  induction h with
  | nil => exact h'
  | cons defined table left own right _ ih => exact .cons defined table left own right (ih h')

theorem aliases (h : Joined r Γ js Δ) :
    Δ.map (·.1) = Γ.map (·.1) ++ js.map (·.aliasName) := by
  induction h with
  | nil => simp
  | cons _ _ _ _ _ _ ih => simp [ih]

/-- Nothing goes out of scope. -/
theorem subset (h : Joined r Γ js Δ) : Γ ⊆ Δ := by
  induction h with
  | nil => exact List.Subset.refl _
  | cons _ _ _ _ _ _ ih => exact List.Subset.trans (List.subset_append_left _ _) ih

theorem mem (h : Joined r Γ js Δ) {j : Join} (hj : j ∈ js) :
    ∃ e, r.get? j.entity = some e ∧ (j.aliasName, e) ∈ Δ := by
  induction h with
  | nil => cases hj
  | cons defined _ _ _ _ rest ih =>
      rcases List.mem_cons.mp hj with rfl | hj
      · exact ⟨_, defined, rest.subset (by simp)⟩
      · exact ih hj

end Joined

end Aliases

/-! ### Inclusions -/

/-- The tables an inclusion brings in. -/
def Inclusion.tables (host : Entity) (x : Inclusion) : Aliases :=
  match x.route host with
  | some (.direct _ _) => [(x.aliasName, x.target)]
  | some (.linked through _) => [(throughAlias x.aliasName, through), (x.aliasName, x.target)]
  | none => []

/-- The alias an include stands under: its own, or the target's table. -/
def Registry.includeAlias (r : Registry) (i : Include) : String :=
  i.aliasName?.getD ((r.get? i.target).elim "" (·.table))

/-- The column a reference means if it means any; without an alias it is one of the root. -/
def ColumnRef.on (root : Entity) (c : ColumnRef) : TableColumn :=
  ⟨c.aliasName?.getD root.table, c.column⟩

namespace Registry

variable {r : Registry} {host : Entity}

theorem aliasName_of_findAssociation {i : Include} {a : Association} {target : Entity}
    (h : r.findAssociation host i = .ok (a, target)) : a.aliasName = r.includeAlias i := by
  obtain ⟨ht, -, -⟩ := findAssociation_eq_ok h
  rw [findAssociation, ht] at h
  dsimp only at h
  split at h
  case h_1 b hb =>
      obtain ⟨rfl, -⟩ := Prod.mk.inj (Except.ok.inj h)
      have hm := List.find?_some hb
      simp only [Bool.and_eq_true, beq_iff_eq] at hm
      rw [hm.1, includeAlias, ht]
      rfl
  case h_2 => cases h

/-- A resolved inclusion brings in its target under the alias of its include. -/
theorem mem_tables {x : Inclusion} (hx : x.Resolved r host) :
    (r.includeAlias x.request, x.target) ∈ x.tables host := by
  obtain ⟨ρ, hρ⟩ := hx.exists_route
  rw [← aliasName_of_findAssociation hx.found, Inclusion.tables, hρ]
  cases ρ with
  | direct _ _ => exact List.mem_cons_self
  | linked _ _ => exact List.mem_cons_of_mem _ List.mem_cons_self

/-- The association of an inclusion has its keys declared. -/
theorem Lawful.keysDeclared (hr : r.Lawful) (hh : host ∈ r.entities) {x : Inclusion}
    (hx : x.Resolved r host) : r.KeysDeclared host x.target x.association := by
  obtain ⟨ht, hn, ha⟩ := findAssociation_eq_ok hx.found
  obtain ⟨target, ht', hk⟩ := (hr.wired host hh _ ha).defined
  rw [hn, name_of_get? ht, ht] at ht'
  cases ht'
  exact hk

/-- The columns a route is made of are declared where it has them. -/
def RouteDeclared (r : Registry) (host : Entity) (x : Inclusion) : Inclusion.Route → Prop
  | .direct hostColumn targetColumn =>
      hostColumn ∈ host.columnNames ∧ targetColumn ∈ x.target.columnNames
  | .linked through otherKey =>
      r.get? through.name = some through ∧ x.association.foreignKey ∈ through.columnNames ∧
        otherKey ∈ through.columnNames

theorem Lawful.exists_route (hr : r.Lawful) (hh : host ∈ r.entities) {x : Inclusion}
    (hx : x.Resolved r host) : ∃ ρ, x.route host = some ρ ∧ r.RouteDeclared host x ρ := by
  obtain ⟨ht, -, -⟩ := findAssociation_eq_ok hx.found
  have hkey : host.primaryKey ∈ host.columnNames := host.key_mem
  have htarget : x.target.primaryKey ∈ x.target.columnNames := x.target.key_mem
  have hkeys := hr.keysDeclared hh hx
  unfold KeysDeclared at hkeys
  unfold Inclusion.route
  cases hk : x.association.kind with
  | belongsTo =>
      rw [hk] at hkeys
      exact ⟨_, rfl, hkeys, htarget⟩
  | hasOne | hasMany =>
      rw [hk] at hkeys
      exact ⟨_, rfl, hkey, hkeys⟩
  | belongsToMany =>
      rw [hk] at hkeys
      obtain ⟨through, otherKey, e, hth, hok, he, hf, ho⟩ := hkeys
      obtain ⟨⟨through', otherKey'⟩, hl, hlink⟩ := hx.linked hk
      obtain ⟨_, hth', hok', he'⟩ := link_eq_ok hlink
      -- the link that was found is the one whose columns were checked
      cases hth.symm.trans hth'
      cases hok.symm.trans hok'
      cases he.symm.trans he'
      rw [hl]
      exact ⟨_, rfl, hr.found _ (mem_of_get? he), hf, ho⟩

/-- The joins of an inclusion are in order. -/
theorem Lawful.joined (hr : r.Lawful) (hh : host ∈ r.entities) {x : Inclusion}
    (hx : x.Resolved r host) {Γ : Aliases} (hΓ : (host.table, host) ∈ Γ) :
    Aliases.Joined r Γ (x.joins r.home host) (Γ ++ x.tables host) := by
  obtain ⟨ht, -, -⟩ := findAssociation_eq_ok hx.found
  have htarget : r.get? x.target.name = some x.target := hr.found _ (mem_of_get? ht)
  obtain ⟨ρ, hρ, hd⟩ := hr.exists_route hh hx
  rw [Inclusion.joins, Inclusion.tables, hρ]
  cases ρ with
  | direct hostColumn targetColumn =>
      obtain ⟨hl, hrt⟩ := hd
      exact .cons htarget rfl ⟨host, hΓ, hl⟩ rfl hrt (.nil _)
  | linked through otherKey =>
      obtain ⟨hthrough, hf, ho⟩ := hd
      have hkey : host.primaryKey ∈ host.columnNames := host.key_mem
      have hpk : x.target.primaryKey ∈ x.target.columnNames := x.target.key_mem
      have h₁ : Aliases.Joined r Γ [x.linkJoin r.home host through]
          (Γ ++ [(throughAlias x.aliasName, through)]) :=
        .cons hthrough rfl ⟨host, hΓ, hkey⟩ rfl hf (.nil _)
      have h₂ : Aliases.Joined r (Γ ++ [(throughAlias x.aliasName, through)])
          [x.targetJoin r.home ⟨throughAlias x.aliasName, otherKey⟩
            ⟨x.aliasName, x.target.primaryKey⟩]
          (Γ ++ [(throughAlias x.aliasName, through)] ++ [(x.aliasName, x.target)]) :=
        .cons htarget rfl ⟨through, List.mem_append_right Γ List.mem_cons_self, ho⟩ rfl hpk
          (.nil _)
      have h := h₁.append h₂
      rw [List.append_assoc] at h
      exact h

/-- **On a lawful registry the joins of inclusions are in order.** -/
theorem Lawful.joined_inclusions (hr : r.Lawful) (hh : host ∈ r.entities) {xs : List Inclusion}
    (hxs : ∀ x ∈ xs, x.Resolved r host) {Γ : Aliases} (hΓ : (host.table, host) ∈ Γ) :
    Aliases.Joined r Γ (xs.flatMap (Inclusion.joins r.home host))
      (Γ ++ xs.flatMap (Inclusion.tables host)) := by
  induction xs generalizing Γ with
  | nil => simpa using Aliases.Joined.nil Γ
  | cons x xs ih =>
      have hx := hr.joined hh (hxs x (by simp)) hΓ
      have hrest := ih (fun y hy => hxs y (by simp [hy])) (List.mem_append_left (x.tables host) hΓ)
      rw [List.flatMap_cons, List.flatMap_cons, ← List.append_assoc]
      exact hx.append hrest

/-! ### References -/

theorem resolve_eq_ok {root : Entity} {js : List Join} {c : ColumnRef} {t : TableColumn}
    (h : r.resolve root js c = .ok t) : t = c.on root := by
  have column : ∀ {owner : Entity}, (if owner.hasColumn c.column then
      (pure (c.on root) : Except Error TableColumn)
        else .error (.unknownAttribute owner.name c.column)) = .ok t → t = c.on root := by
    intro owner h
    split at h
    · exact (Except.ok.inj h).symm
    · cases h
  unfold resolve at h
  dsimp only at h
  split at h
  · exact column h
  · split at h
    · obtain ⟨owner, -, h⟩ := bind_eq_ok h
      exact column h
    · cases h

/-- **A reference that is resolved is declared.** -/
theorem declares_of_resolve {root : Entity} {js : List Join} {Γ Δ : Aliases} {c : ColumnRef}
    {t : TableColumn} (hj : Aliases.Joined r Γ js Δ) (hroot : (root.table, root) ∈ Γ)
    (h : r.resolve root js c = .ok t) : Δ.Declares t := by
  -- what is resolved is a column of the owner, under the alias it was looked up by
  have column : ∀ {owner : Entity} {aliasName : String}, (aliasName, owner) ∈ Δ →
      (if owner.hasColumn c.column then (pure ⟨aliasName, c.column⟩ : Except Error TableColumn)
        else .error (.unknownAttribute owner.name c.column)) = .ok t → Δ.Declares t := by
    intro owner aliasName ho h
    split at h
    case isTrue hc =>
        cases h
        exact ⟨owner, ho, Entity.hasColumn_iff.mp hc⟩
    case isFalse => cases h
  unfold resolve at h
  dsimp only at h
  split at h
  case isTrue ha =>
      rw [ha] at h
      exact column (hj.subset hroot) h
  case isFalse =>
      split at h
      case h_1 j hfind =>
          obtain ⟨owner, he, h⟩ := bind_eq_ok h
          obtain ⟨e, he', hm⟩ := hj.mem (List.mem_of_find?_eq_some hfind)
          have ha : j.aliasName = c.aliasName?.getD root.table :=
            beq_iff_eq.mp (List.find?_some (p := fun j : Join => j.aliasName == _) hfind)
          cases he'.symm.trans (entity_eq_ok he)
          rw [ha] at hm
          exact column hm h
      case h_2 => cases h

end Registry

/-! ### Projections -/

namespace Entity

variable {e : Entity} {columns : List String}

theorem mem_columnNames_of_choose {chosen requested : List String}
    (h : e.choose chosen requested = .ok columns) (hc : ∀ c ∈ chosen, c ∈ e.columnNames) :
    ∀ c ∈ columns, c ∈ e.columnNames := by
  induction requested generalizing chosen with
  | nil =>
      cases h
      exact hc
  | cons d rest ih =>
      rw [choose] at h
      split at h
      case isFalse => cases h
      case isTrue hd =>
          refine ih h fun c hm => ?_
          split at hm
          · exact hc c hm
          · rcases List.mem_append.mp hm with hm | hm
            · exact hc c hm
            · rw [List.mem_singleton.mp hm]
              exact hasColumn_iff.mp hd

/-- The columns read of a table are declared. -/
theorem mem_columnNames_of_projection {requested : Option (List String)}
    (h : e.projection requested = .ok columns) : ∀ c ∈ columns, c ∈ e.columnNames := by
  cases requested with
  | none =>
      cases h
      exact fun _ hc => hc
  | some requested =>
      refine mem_columnNames_of_choose h fun c hc => ?_
      split at hc
      · cases hc
      · rw [List.mem_singleton.mp hc]
        exact e.key_mem

end Entity

end RowGraph
