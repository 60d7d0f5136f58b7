import RowGraph.Proofs.Alike
import RowGraph.Proofs.Session
import RowGraph.Proofs.Text.Utf8

/-!
# Proofs — Session — tables in the order of their names

`Session.sync` offers the entities of a registry to a schema manager, which answers each call with
a success or a failure.  The answers are taken here as they come, the `i`-th being that to the
`i`-th call; `Session.Visits` says by them alone which names are visited, and what comes of it.

* `Registry.ascending_names`, `Registry.sorted_eq_of_perm`: the entities come in ascending order of
  the bytes of their names, in whichever order they are kept.
* `Session.visits_offer`: the loop goes on after a success and stops after a failure.

**Every entity is visited once, in name order, up to the first failure** (`Session.sync_visits`).
-/

namespace RowGraph

/-! ### The order of the entities -/

theorem Entity.pairwise_mergeSort (es : List Entity) :
    (es.mergeSort fun a b => a.name ≤ b.name).Pairwise fun a b => a.name ≤ b.name := by
  have h := RowGraph.pairwise_mergeSort (es.map (·.name))
  rwa [← map_name_mergeSort, List.pairwise_map] at h

namespace Registry

/-- The names of the entities, in the order in which these are offered. -/
def names (r : Registry) : List String := r.sorted.map (·.name)

variable {r : Registry}

theorem sorted_perm (r : Registry) : r.sorted.Perm r.entities := List.mergeSort_perm _ _

theorem names_perm (r : Registry) : r.names.Perm (r.entities.map (·.name)) := r.sorted_perm.map _

theorem mem_names {name : String} : name ∈ r.names ↔ ∃ e, r.get? name = some e := by
  rw [r.names_perm.mem_iff, mem_map_name]

theorem nodup_names (r : Registry) : r.names.Nodup := r.names_perm.nodup_iff.mpr r.nodup

/-- The names stand in ascending order of their bytes. -/
theorem ascending_names (r : Registry) :
    r.names.Pairwise fun a b => Utf8.encode a < Utf8.encode b := by
  have hle : r.names.Pairwise (· ≤ ·) := List.pairwise_map.mpr (Entity.pairwise_mergeSort _)
  refine (hle.and r.nodup_names).imp fun {a b} hab => Utf8.encode_lt_iff.mpr ?_
  exact String.not_le.mp fun hba => hab.2 (String.le_antisymm hab.1 hba)

/-- In whichever order entities are kept, they are offered in one. -/
theorem sorted_eq_of_perm {order : List Entity} (ho : order.Perm r.entities) :
    (order.mergeSort fun a b => a.name ≤ b.name) = r.sorted := by
  have hp := List.mergeSort_perm order fun a b => a.name ≤ b.name
  refine List.Perm.eq_of_pairwise (fun a b ha hb hab hba => ?_) (Entity.pairwise_mergeSort order)
    (Entity.pairwise_mergeSort r.entities) (hp.trans (ho.trans r.sorted_perm.symm))
  -- entities of one name are one entity
  exact List.inj_on_of_nodup_map r.nodup (ho.mem_iff.mp (hp.mem_iff.mp ha))
    (r.sorted_perm.mem_iff.mp hb) (String.le_antisymm hab hba)

end Registry

/-! ### Calls and their answers -/

namespace Session

/-- What comes of offering names in order, if the `i`-th call is answered with `as i`: which names
are visited, and the result. -/
structure Visits (names : List String) (as : Nat → Except EngineFailure Unit)
    (visited : List String) (result : Except EngineFailure Unit) : Prop where
  /-- A name is visited behind all those in front of it, if these succeeded. -/
  visited : ∀ i name, visited[i]? = some name ↔ names[i]? = some name ∧ ∀ j < i, as j = .ok ()
  /-- All is well if every call succeeds. -/
  ok : result = .ok () ↔ ∀ i < names.length, as i = .ok ()
  /-- If one fails behind successes only, that failure is reported. -/
  error : ∀ f, result = .error f ↔
    ∃ i < names.length, (∀ j < i, as j = .ok ()) ∧ as i = .error f

theorem visits_nil (as : Nat → Except EngineFailure Unit) : Visits [] as [] (.ok ()) where
  visited i name := by simp
  ok := by simp
  error f := by simp

/-- A call that fails is the last. -/
theorem visits_failed {as : Nat → Except EngineFailure Unit} {f : EngineFailure}
    (h : as 0 = .error f) (name : String) (names : List String) :
    Visits (name :: names) as [name] (.error f) := by
  have hfirst : as 0 ≠ .ok () := by simp [h]
  refine ⟨fun i other => ?_, ?_, fun g => ?_⟩
  · cases i with
    | zero => simp
    | succ i =>
        rw [Nat.forall_lt_succ_left]
        simp [hfirst]
  · rw [List.length_cons, Nat.forall_lt_succ_left]
    simp [hfirst]
  · constructor
    · intro hg
      exact ⟨0, Nat.zero_lt_succ _, nofun, h.trans hg⟩
    · rintro ⟨i, -, hs, hf⟩
      cases i with
      | zero => exact h.symm.trans hf
      | succ i => exact absurd (Nat.forall_lt_succ_left.mp hs).1 hfirst

/-- After a call that succeeds come the others. -/
theorem Visits.cons {as : Nat → Except EngineFailure Unit} {names visited : List String}
    {result : Except EngineFailure Unit} (hs : as 0 = .ok ())
    (h : Visits names (fun i => as (i + 1)) visited result) (name : String) :
    Visits (name :: names) as (name :: visited) result := by
  refine ⟨fun i other => ?_, ?_, fun f => ?_⟩
  · cases i with
    | zero => simp
    | succ i =>
        rw [Nat.forall_lt_succ_left, List.getElem?_cons_succ, List.getElem?_cons_succ, h.visited]
        simp [hs]
  · rw [List.length_cons, Nat.forall_lt_succ_left, h.ok]
    simp [hs]
  · rw [h.error]
    constructor
    · rintro ⟨i, hi, hj, hf⟩
      exact ⟨i + 1, Nat.succ_lt_succ hi, Nat.forall_lt_succ_left.mpr ⟨hs, hj⟩, hf⟩
    · rintro ⟨i, hi, hj, hf⟩
      cases i with
      | zero => simp [hs] at hf
      | succ i =>
          exact ⟨i, Nat.lt_of_succ_lt_succ hi, (Nat.forall_lt_succ_left.mp hj).2, hf⟩

/-- The loop goes on after a success and stops after a failure. -/
theorem visits_offer {ensure : Entity → Except EngineFailure Unit} (es : List Entity)
    {as : Nat → Except EngineFailure Unit}
    (h : ∀ i e, (offer ensure es).1[i]? = some e → ensure e = as i) :
    Visits (es.map (·.name)) as ((offer ensure es).1.map (·.name)) (offer ensure es).2 := by
  induction es generalizing as with
  | nil => exact visits_nil as
  | cons e es ih =>
      rw [offer] at h ⊢
      cases he : ensure e with
      | error f =>
          rw [he] at h
          exact visits_failed ((h 0 e rfl).symm.trans he) e.name _
      | ok u =>
          rw [he] at h
          exact (ih fun i e' hi => h (i + 1) e' hi).cons ((h 0 e rfl).symm.trans he) e.name

theorem offer_initial (ensure : Entity → Except EngineFailure Unit) (es : List Entity) :
    (offer ensure es).1 <+: es := by
  induction es with
  | nil => exact List.prefix_rfl
  | cons e es ih =>
      rw [offer]
      cases ensure e with
      | error f => exact List.prefix_append [e] es
      | ok u => exact (List.prefix_cons_inj e).mpr ih

/-! ### Tables -/

/-- The session with its entities kept in another order. -/
def kept (s : Session) {order : List Entity} (ho : order.Perm s.registry.entities) : Session :=
  { s with
    registry :=
      { s.registry with
        entities := order
        nodup := (ho.map _).nodup_iff.mpr s.registry.nodup } }

theorem sync_kept {s : Session} {order : List Entity} (ho : order.Perm s.registry.entities)
    (ensure : Entity → Except EngineFailure Unit) : (s.kept ho).sync ensure = s.sync ensure := by
  have h : (s.kept ho).registry.sorted = s.registry.sorted := Registry.sorted_eq_of_perm ho
  rw [sync, sync, h]

theorem getElem?_names {s : Session} {ensure : Entity → Except EngineFailure Unit} {i : Nat}
    {e : Entity} (h : (s.sync ensure).1[i]? = some e) :
    s.registry.names[i]? = some e.name := by
  obtain ⟨hlt, rfl⟩ := List.getElem?_eq_some_iff.mp h
  have hs := List.prefix_iff_getElem?.mp (offer_initial ensure s.registry.sorted) i hlt
  rw [Registry.names, List.getElem?_map, hs, Option.map_some]
  rfl

/-- Any answers may come: no entity is offered twice, so each call can have its own. -/
theorem exists_ensure (s : Session) (as : Nat → Except EngineFailure Unit) :
    ∃ ensure, ∀ i e, (s.sync ensure).1[i]? = some e → ensure e = as i := by
  refine ⟨fun e => as (s.registry.names.idxOf e.name), fun i e hi => ?_⟩
  obtain ⟨hlt, hname⟩ := List.getElem?_eq_some_iff.mp (getElem?_names hi)
  have hidx : s.registry.names.idxOf e.name = i := by
    rw [← hname]
    exact s.registry.nodup_names.idxOf_getElem i hlt
  exact congrArg as hidx

/-- **Every entity is visited once, in name order, up to the first failure.**  The names of a
registry are the defined ones, in ascending order of their bytes; a schema manager is offered the
entities of these names one by one until it fails, and with that failure `sync` ends.  The order in
which the entities are kept plays no part, and the manager may answer as it likes. -/
theorem sync_visits (s : Session) :
    (s.registry.names.Pairwise fun a b => Utf8.encode a < Utf8.encode b) ∧
      (∀ name, name ∈ s.registry.names ↔ ∃ e, s.registry.get? name = some e) ∧
      (∀ ensure (as : Nat → Except EngineFailure Unit),
        (∀ i e, (s.sync ensure).1[i]? = some e → ensure e = as i) →
        (∀ e ∈ (s.sync ensure).1, s.registry.get? e.name = some e) ∧
          ((s.sync ensure).1.map (·.name)).Nodup ∧
          ∃ result, (s.sync ensure).2 = result.mapError .engine ∧
            Visits s.registry.names as ((s.sync ensure).1.map (·.name)) result) ∧
      (∀ as : Nat → Except EngineFailure Unit,
        ∃ ensure, ∀ i e, (s.sync ensure).1[i]? = some e → ensure e = as i) ∧
      ∀ (order : List Entity) (ho : order.Perm s.registry.entities) ensure,
        (s.kept ho).sync ensure = s.sync ensure := by
  refine ⟨s.registry.ascending_names, fun _ => Registry.mem_names, ?_, exists_ensure s,
    fun _ => sync_kept⟩
  intro ensure as h
  have hp := offer_initial ensure s.registry.sorted
  refine ⟨fun e he => ?_, ?_, _, rfl, visits_offer s.registry.sorted h⟩
  · exact Registry.get?_of_mem (s.registry.sorted_perm.mem_iff.mp (hp.subset he))
  · exact s.registry.nodup_names.sublist (hp.sublist.map _)

/-- A schema manager without room for chapters. -/
def crowded (e : Entity) : Except EngineFailure Unit :=
  if e.name = "chapter" then .error ⟨"out of space", none⟩ else .ok ()

/-- Chapters come third, behind books and the links of books to tags; tags are not reached. -/
theorem sync_visits_library :
    (atLibrary.sync crowded).2 = .error (.engine ⟨"out of space", none⟩) ∧
      ((atLibrary.sync crowded).1.map (·.name))[2]? = some "chapter" ∧
      ((atLibrary.sync crowded).1.map (·.name))[3]? ≠ some "tag" := by
  have hnames : atLibrary.registry.names = ["book", "book_tag", "chapter", "tag"] := by
    have hp : (atLibrary.registry.entities.map (·.name)).Perm
        ["book", "book_tag", "chapter", "tag"] := by decide
    rw [Registry.names, Registry.sorted, Entity.map_name_mergeSort, mergeSort_eq_of_perm hp]
    exact List.mergeSort_of_pairwise (by decide)
  have hanswers : ∀ i e, (atLibrary.sync crowded).1[i]? = some e →
      crowded e = if i = 2 then .error ⟨"out of space", none⟩ else .ok () := by
    intro i e hi
    have hn := getElem?_names hi
    rw [hnames] at hn
    obtain ⟨hlt, hname⟩ := List.getElem?_eq_some_iff.mp hn
    rw [crowded, ← hname]
    replace hlt : i < 4 := hlt
    obtain rfl | rfl | rfl | rfl : i = 0 ∨ i = 1 ∨ i = 2 ∨ i = 3 := by omega
    all_goals rfl
  obtain ⟨-, -, hvisits, -, -⟩ := sync_visits atLibrary
  obtain ⟨-, -, result, hresult, h⟩ := hvisits crowded _ hanswers
  rw [hnames] at h
  refine ⟨?_, ?_, ?_⟩
  · rw [hresult, (h.error _).mpr ⟨2, by decide, by decide, rfl⟩]
    rfl
  · rw [h.visited]
    decide
  · rw [ne_eq, h.visited]
    decide

end Session

end RowGraph
