import RowGraph.Proofs.Find.Labels
import RowGraph.Proofs.Schema.Order
import RowGraph.Session.Basic

/-!
# Proofs — the order of definitions

Nothing that is made from a registry shows in which order its associations were wired: an include
finds its association by an alias that no other has.  So registries that are alike
(`Registry.Alike`) give the same answers (`Registry.Agrees`), and **the order of definitions does
not matter** (`Registry.agrees_of_perm`).

`Corresponds` says of two results that they are related, or refused for the same reason; results
that correspond may be handed to computations that do not see the difference
(`Corresponds.bind_eq`).
-/

namespace RowGraph

/-- Results that `R` relates, or one refusal. -/
inductive Corresponds {α β : Type} (R : α → β → Prop) : Except Error α → Except Error β → Prop where
  | ok {a : α} {b : β} (h : R a b) : Corresponds R (.ok a) (.ok b)
  | error (e : Error) : Corresponds R (.error e) (.error e)

namespace Corresponds

variable {α β γ : Type} {R : α → β → Prop} {x : Except Error α} {y : Except Error β}

theorem bind_eq (h : Corresponds R x y) {f : α → Except Error γ} {g : β → Except Error γ}
    (hfg : ∀ a b, x = .ok a → R a b → f a = g b) : x >>= f = y >>= g := by
  cases h with
  | ok hab => exact hfg _ _ rfl hab
  | error e => rfl

theorem lift_bind_eq (h : Corresponds R x y) {f : α → Draw γ} {g : β → Draw γ}
    (hfg : ∀ a b, R a b → f a = g b) : Draw.lift x >>= f = Draw.lift y >>= g := by
  cases h with
  | ok hab => exact congrArg (Draw.lift (.ok ()) >>= fun _ => ·) (hfg _ _ hab)
  | error e => rfl

end Corresponds

/-- What is looked for by a key is found in every order, if no key is there twice. -/
theorem find?_eq_of_perm {α κ : Type} {key : α → κ} {p : α → Bool} {k : κ} {l l' : List α}
    (hl : l.Perm l') (hn : (l.map key).Nodup) (hp : ∀ a, p a → key a = k) :
    l.find? p = l'.find? p := by
  cases h : l.find? p with
  | none =>
      refine (List.find?_eq_none.mpr fun a ha => ?_).symm
      exact List.find?_eq_none.mp h a (hl.mem_iff.mpr ha)
  | some a =>
      cases h' : l'.find? p with
      | none =>
          exact absurd (List.find?_some h)
            (List.find?_eq_none.mp h' a (hl.mem_iff.mp (List.mem_of_find?_eq_some h)))
      | some b =>
          have ha := hp a (List.find?_some h)
          have hb := hp b (List.find?_some h')
          rw [List.inj_on_of_nodup_map hn (List.mem_of_find?_eq_some h)
            (hl.mem_iff.mpr (List.mem_of_find?_eq_some h')) (ha.trans hb.symm)]

/-! ### Entities that are alike -/

namespace Entity.Alike

variable {e e' : Entity} (h : e.Alike e')
include h

theorem columnNames : e'.columnNames = e.columnNames := congrArg (List.map _) h.columns

theorem hasColumn (name : String) : e'.hasColumn name = e.hasColumn name := by
  rw [h.eq_with]
  rfl

theorem requireCells : e'.requireCells = e.requireCells := by
  rw [h.eq_with]
  rfl

theorem choose (chosen requested : List String) :
    e'.choose chosen requested = e.choose chosen requested := by
  induction requested generalizing chosen with
  | nil => rfl
  | cons c rest ih => rw [Entity.choose, Entity.choose, h.hasColumn, h.name, ih]

theorem projection (columns : Option (List String)) :
    e'.projection columns = e.projection columns := by
  cases columns with
  | none => exact congrArg Except.ok h.columnNames
  | some requested => rw [Entity.projection, Entity.projection, h.primaryKey, h.choose]

end Entity.Alike

namespace Registry.Alike

/-! ### Looking up -/

section

variable {r r' : Registry} (h : r.Alike r')
include h

theorem entity (name : String) : Corresponds Entity.Alike (r.entity name) (r'.entity name) := by
  have hg := h.entities name
  unfold Registry.entity
  generalize r.get? name = x, r'.get? name = y at hg
  cases hg with
  | some he => exact .ok he
  | none => exact .error _

theorem link (owner : String) (a : Association) :
    Corresponds (fun l l' => l.1.Alike l'.1 ∧ l'.2 = l.2) (r.link owner a) (r'.link owner a) := by
  unfold Registry.link
  split
  case h_1 | h_2 => exact .error _
  case h_3 through otherKey _ _ =>
      have he := h.entity through
      generalize r.entity through = x, r'.entity through = y at he
      cases he with
      | ok he => exact .ok ⟨he, rfl⟩
      | error e => exact .error e

/-! ### Writes -/

theorem insert (name : String) (rows : List Row) : r.insert name rows = r'.insert name rows := by
  refine (h.entity name).bind_eq fun e e' _ he => ?_
  simp only [he.requireCells, he.columnNames, he.name, he.table, h.home]

theorem update (name : String) (values : Row) (filter : Option Filter) :
    r.update name values filter = r'.update name values filter := by
  refine (h.entity name).bind_eq fun e e' _ he => ?_
  simp only [he.requireCells, he.name, he.table, h.home]

theorem delete (name : String) (filter : Option Filter) :
    r.delete name filter = r'.delete name filter := by
  refine (h.entity name).bind_eq fun e e' _ he => ?_
  simp only [he.table, h.home]

/-! ### Joins -/

variable {host host' : Entity} (hh : host.Alike host')
include hh

theorem joinsOf (a : Association) {target target' : Entity} (ht : target.Alike target')
    (kind : JoinKind) (filter : Option Predicate) :
    r.joinsOf host a target kind filter = r'.joinsOf host' a target' kind filter := by
  unfold Registry.joinsOf
  rw [h.home, hh.name, hh.table, hh.primaryKey, ht.name, ht.table, ht.primaryKey]
  cases a.kind with
  | belongsTo | hasOne | hasMany => rfl
  | belongsToMany =>
      refine (h.link host.name a).bind_eq ?_
      rintro ⟨through, otherKey⟩ ⟨through', _⟩ - ⟨hl, rfl⟩
      have hl : through.Alike through' := hl
      simp only [hl.name, hl.table]

theorem resolve (js : List Join) (c : ColumnRef) : r.resolve host js c = r'.resolve host' js c := by
  have owned : ∀ (t : TableColumn) (e e' : Entity), e.Alike e' →
      (if e.hasColumn c.column then pure t else .error (.unknownAttribute e.name c.column)) =
        if e'.hasColumn c.column then pure t
        else (.error (.unknownAttribute e'.name c.column) : Except Error TableColumn) := by
    intro t e e' he
    rw [he.hasColumn, he.name]
  unfold Registry.resolve
  rw [hh.table]
  dsimp only
  split
  · exact (Corresponds.ok hh).bind_eq fun e e' _ => owned _ e e'
  · split
    · exact (h.entity _).bind_eq fun e e' _ => owned _ e e'
    · rfl

variable (hn : (host.associations.map (·.aliasName)).Nodup)
include hn

theorem findAssociation (i : Include) :
    Corresponds (fun m m' => m'.1 = m.1 ∧ m.2.Alike m'.2) (r.findAssociation host i)
      (r'.findAssociation host' i) := by
  have hg := h.entities i.target
  unfold Registry.findAssociation
  generalize r.get? i.target = x, r'.get? i.target = y at hg
  cases hg with
  | none =>
      rw [hh.name]
      exact .error _
  | @some target target' ht =>
      dsimp only
      -- the alias that is looked for is one association's at most
      rw [ht.table, ht.name, hh.name,
        ← find?_eq_of_perm hh.associations hn (k := i.aliasName?.getD target.table)
          fun a ha => beq_iff_eq.mp (Bool.and_eq_true _ _ ▸ ha).1]
      split
      · exact .ok ⟨rfl, ht⟩
      · exact .error _

theorem includeJoins (i : Include) : r.includeJoins host i = r'.includeJoins host' i := by
  refine (h.findAssociation hh hn i).lift_bind_eq ?_
  rintro ⟨a, target⟩ ⟨a', target'⟩ ⟨ha, ht⟩
  obtain rfl : a' = a := ha
  have ht : target.Alike target' := ht
  simp only [h.joinsOf hh a' ht]

theorem joins (is : List Include) : r.joins host is = r'.joins host' is := by
  induction is with
  | nil => rfl
  | cons i is ih => rw [Registry.joins, Registry.joins, h.includeJoins hh hn i, ih]

/-! ### Finds -/

theorem source (o : FindOptions) : r.source host o = r'.source host' o := by
  unfold Registry.source
  rw [h.joins hh hn, h.home, hh.table]

theorem includeShapes (used : List String) (is : List Include) :
    r.includeShapes host used is = r'.includeShapes host' used is := by
  induction is generalizing used with
  | nil => rfl
  | cons i is ih =>
      refine (h.findAssociation hh hn i).bind_eq ?_
      rintro ⟨a, target⟩ ⟨a', target'⟩ - ⟨ha, ht⟩
      obtain rfl : a' = a := ha
      have ht : target.Alike target' := ht
      simp only [ht.projection, ht.primaryKey, ih]

theorem shape (columns : Option (List String)) (is : List Include) :
    r.shape host columns is = r'.shape host' columns is := by
  unfold Registry.shape
  rw [hh.projection, hh.table, hh.primaryKey]
  simp only [h.includeShapes hh hn]

end

variable {r r' : Registry} (h : r.Alike r') (hr : r.Lawful)
include h hr

theorem select (name : String) (o : FindOptions) : r.select name o = r'.select name o := by
  refine (h.entity name).bind_eq fun host host' he hh => ?_
  have hn := hr.aliases host (mem_of_get? (entity_eq_ok he))
  have hresolve := fun js => funext (h.resolve hh js)
  simp only [h.source hh hn, h.shape hh hn, h.resolve hh, hresolve]

theorem count (name : String) (o : FindOptions) : r.count name o = r'.count name o := by
  refine (h.entity name).bind_eq fun host host' he hh => ?_
  have hn := hr.aliases host (mem_of_get? (entity_eq_ok he))
  rw [h.source hh hn, hh.table, hh.primaryKey]

end Registry.Alike

/-! ### Tables -/

theorem pairwise_mergeSort (l : List String) : (l.mergeSort (· ≤ ·)).Pairwise (· ≤ ·) := by
  have hl : (l.mergeSort (· ≤ ·)).Pairwise fun a b => decide (a ≤ b) = true :=
    List.pairwise_mergeSort
      (fun _ _ _ h h' => by simpa using String.le_trans (by simpa using h) (by simpa using h'))
      (fun a b => by simpa using String.le_total a b) l
  simpa using hl

/-- Names in ascending order are the same, whatever order they came in. -/
theorem mergeSort_eq_of_perm {l l' : List String} (h : l.Perm l') :
    l.mergeSort (· ≤ ·) = l'.mergeSort (· ≤ ·) := by
  refine List.Perm.eq_of_pairwise (fun _ _ _ _ => String.le_antisymm) (pairwise_mergeSort l)
    (pairwise_mergeSort l') ?_
  exact (List.mergeSort_perm l _).trans (h.trans (List.mergeSort_perm l' _).symm)

/-- Putting entities in the order of their names puts the names in order. -/
theorem Entity.map_name_mergeSort (es : List Entity) :
    (es.mergeSort fun a b => a.name ≤ b.name).map (·.name) =
      (es.map (·.name)).mergeSort (· ≤ ·) :=
  List.map_mergeSort fun _ _ _ _ => rfl

namespace Registry.Alike

variable {r r' : Registry} (h : r.Alike r')
include h

theorem names_perm : (r.entities.map (·.name)).Perm (r'.entities.map (·.name)) := by
  refine (List.perm_ext_iff_of_nodup r.nodup r'.nodup).mpr fun name => ?_
  rw [mem_map_name, mem_map_name]
  have hg := h.entities name
  generalize r.get? name = x, r'.get? name = y at hg
  cases hg <;> simp

/-- In the order of their names, the entities of both are alike one by one. -/
theorem sorted : List.Forall₂ Entity.Alike r.sorted r'.sorted := by
  have heq : List.Forall₂ (· = ·) (r.sorted.map (·.name)) (r'.sorted.map (·.name)) := by
    rw [List.forall₂_eq_eq_eq, Registry.sorted, Registry.sorted, Entity.map_name_mergeSort,
      Entity.map_name_mergeSort]
    exact mergeSort_eq_of_perm h.names_perm
  rw [List.forall₂_map_left_iff, List.forall₂_map_right_iff, List.forall₂_iff_zip] at heq
  rw [List.forall₂_iff_zip]
  refine ⟨heq.1, fun {e e'} hz => ?_⟩
  obtain ⟨hm, hm'⟩ := List.of_mem_zip hz
  have he := get?_of_mem ((List.mergeSort_perm _ _).mem_iff.mp hm)
  have he' := get?_of_mem ((List.mergeSort_perm _ _).mem_iff.mp hm')
  have hg := h.entities e.name
  rw [he, heq.2 hz, he'] at hg
  cases hg
  assumption

end Registry.Alike

namespace Session

/-- Entities that are alike are offered alike. -/
theorem offer_alike {es es' : List Entity} (hes : List.Forall₂ Entity.Alike es es')
    {ensure ensure' : Entity → Except EngineFailure Unit}
    (he : ∀ e e', e.Alike e' → ensure e = ensure' e') :
    List.Forall₂ Entity.Alike (offer ensure es).1 (offer ensure' es').1 ∧
      (offer ensure es).2 = (offer ensure' es').2 := by
  induction hes with
  | nil => exact ⟨.nil, rfl⟩
  | @cons e e' es es' ha _ ih =>
      rw [offer, offer, ← he e e' ha]
      cases ensure e with
      | error f => exact ⟨.cons ha .nil, rfl⟩
      | ok u => exact ⟨.cons ha ih.1, ih.2⟩

end Session

/-! ### The same answers -/

namespace Registry

/-- Registries that give the same answers, to whatever is asked. -/
structure Agrees (r r' : Registry) : Prop where
  entity : ∀ name, Corresponds Entity.Alike (r.entity name) (r'.entity name)
  findAssociation : ∀ host ∈ r.entities, ∀ host', host.Alike host' → ∀ i : Include,
    Corresponds (fun m m' => m'.1 = m.1 ∧ m.2.Alike m'.2) (r.findAssociation host i)
      (r'.findAssociation host' i)
  joins : ∀ host ∈ r.entities, ∀ host', host.Alike host' → ∀ is : List Include,
    r.joins host is = r'.joins host' is
  select : ∀ name o, r.select name o = r'.select name o
  count : ∀ name o, r.count name o = r'.count name o
  insert : ∀ name rows, r.insert name rows = r'.insert name rows
  update : ∀ name values filter, r.update name values filter = r'.update name values filter
  delete : ∀ name filter, r.delete name filter = r'.delete name filter
  /-- Schema managers to whom the order of associations is all the same are offered the same
  entities in the same order, and end alike. -/
  sync : ∀ (config : Config) (ensure ensure' : Entity → Except EngineFailure Unit),
    (∀ e e', e.Alike e' → ensure e = ensure' e') →
      List.Forall₂ Entity.Alike (Session.sync ⟨r, config⟩ ensure).1
          (Session.sync ⟨r', config⟩ ensure').1 ∧
        (Session.sync ⟨r, config⟩ ensure).2 = (Session.sync ⟨r', config⟩ ensure').2

theorem Alike.agrees {r r' : Registry} (h : r.Alike r') (hr : r.Lawful) : r.Agrees r' where
  entity := h.entity
  findAssociation host hm _ hh := h.findAssociation hh (hr.aliases host hm)
  joins host hm _ hh := h.joins hh (hr.aliases host hm)
  select := h.select hr
  count := h.count hr
  insert := h.insert
  update := h.update
  delete := h.delete
  sync config ensure ensure' he := by
    have ho := Session.offer_alike h.sorted he
    exact ⟨ho.1, congrArg (Except.mapError CallError.engine) ho.2⟩

/-- **The order of definitions does not matter**: steps of which none is refused lead to registries
that give the same answers, in whichever order they are taken. -/
theorem agrees_of_perm {home : Namespace} {steps steps' : List Step} (hp : steps.Perm steps')
    {r r' : Registry} (h : (empty home).build steps = .ok r)
    (h' : (empty home).build steps' = .ok r') : r.Agrees r' := by
  obtain ⟨hr, -, ha⟩ := alike_of_perm hp h h'
  exact ha.agrees hr

/-- The entities of the library. -/
def shelves : List Step :=
  [.define "book" [.column "title" .string],
    .define "chapter" [.column "heading" .string, .column "book_id" .int64],
    .define "tag" [.column "label" .string],
    .define "book_tag" [.column "book_id" .int64, .column "tag_id" .int64]]

/-- The associations between them. -/
def wirings : List Step := [.associate "book" chapters, .associate "book" tags]

theorem agrees_of_perm_library :
    ∃ r r', (empty .empty).build (shelves ++ wirings) = .ok r ∧
      (empty .empty).build (shelves.reverse ++ wirings.reverse) = .ok r' ∧
      r ≠ r' ∧ r.select "book" catalogue = r'.select "book" catalogue := by
  have hp : (shelves ++ wirings).Perm (shelves.reverse ++ wirings.reverse) :=
    (List.reverse_perm shelves).symm.append (List.reverse_perm wirings).symm
  have h := @agrees_of_perm .empty _ _ hp _ _ rfl rfl
  exact ⟨_, _, rfl, rfl, by decide, h.select "book" catalogue⟩

end Registry

end RowGraph
