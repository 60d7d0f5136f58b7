import Mathlib.Data.List.Induction
import RowGraph.Proofs.Record.InPlace
import RowGraph.Proofs.Value.Hash

/-!
# Proofs — Record — hashed keys

The fold in place looks keys up, a root key in the index of its records and an include's key among
those it has seen.  Both can be kept in a hash table.  `HashTable` is what is relied on of one: it
is asked with a hash and a test, finds no entry that fails the test, and misses none that was put in
under that hash and passes.  Which entries of other hashes it tries on the way is left open, and so
is the function that makes a hash of what it is fed.

* `HashTable.indexes_enter`: entering a pair keeps a table that holds the first pair of each key.
* `HashTable.lookup_eq_find?`: in such a table a lookup finds what a search from the front finds.
* `Drafts.ofPairs_locate`, `ofPairs_seen`: the fold enters into its index and its seen keys.

**Keys are lawful** (`keys_lawful`): `Value.same` is an equivalence that hashing agrees with, so a
key is found exactly if the same key was entered before, and the fold may hash its keys.
-/

namespace RowGraph

/-- A table of entries that are put in under hashes. -/
structure HashTable (α : Type) where
  State : Type
  empty : State
  insert : UInt64 → α → State → State
  find : UInt64 → (α → Bool) → State → Option α
  /-- The entry was put in under the hash. -/
  Holds : State → UInt64 → α → Prop
  not_holds_empty : ∀ h a, ¬ Holds empty h a
  holds_insert : ∀ h a t h' b, Holds (insert h a t) h' b ↔ (h' = h ∧ b = a) ∨ Holds t h' b
  /-- What is found passes the test and was put in, under whichever hash. -/
  find_sound : ∀ h p t a, find h p t = some a → p a ∧ ∃ h', Holds t h' a
  /-- What was put in under the hash is not missed. -/
  find_complete : ∀ h p t a, Holds t h a → p a → (find h p t).isSome

namespace HashTable

variable {β : Type} (T : HashTable (Value × β)) (hash : List HashWord → UInt64)

/-! ### Keys in a table -/

def lookup (k : Value) (t : T.State) : Option (Value × β) :=
  T.find (hash k.hashWords) (·.1.same k) t

/-- Puts a pair in, unless there is one of its key. -/
def enter (t : T.State) (p : Value × β) : T.State :=
  match T.lookup hash p.1 t with
  | some _ => t
  | none => T.insert (hash p.1.hashWords) p t

/-- The table of pairs that are entered one after the other. -/
def ofPairs (ps : List (Value × β)) : T.State := ps.foldl (T.enter hash) T.empty

/-- The table holds the first pair of each key, under the hash of the key. -/
def Indexes (t : T.State) (ps : List (Value × β)) : Prop :=
  ∀ h e, T.Holds t h e ↔ h = hash e.1.hashWords ∧ ps.find? (·.1.same e.1) = some e

variable {T hash}

/-- A lookup finds the first pair of the key. -/
theorem lookup_eq_find? {t : T.State} {ps : List (Value × β)} (ht : T.Indexes hash t ps)
    (k : Value) : T.lookup hash k t = ps.find? (·.1.same k) := by
  have found : ∀ e, T.lookup hash k t = some e → ps.find? (·.1.same k) = some e := by
    intro e he
    obtain ⟨hk, h, hh⟩ := T.find_sound _ _ _ _ he
    obtain rfl := Value.same_iff_eq.mp hk
    exact ((ht h e).mp hh).2
  cases hl : T.lookup hash k t with
  | some e => rw [found e hl]
  | none =>
      cases hf : ps.find? (·.1.same k) with
      | none => rfl
      | some e =>
          -- the pair was put in under the hash of its key, which is that of `k`
          have hk : e.1.same k := List.find?_some (p := fun e : Value × β => e.1.same k) hf
          obtain rfl := Value.same_iff_eq.mp hk
          have hs := T.find_complete _ (·.1.same e.1) t e ((ht _ e).mpr ⟨rfl, hf⟩) hk
          rw [lookup] at hl
          rw [hl] at hs
          cases hs

theorem indexes_empty : T.Indexes hash T.empty [] :=
  fun h e => iff_of_false (T.not_holds_empty h e) fun he => nomatch he.2

/-- A pair at the end is the first of its key if there is none in front. -/
theorem find?_append_eq_some {ps : List (Value × β)} {p e : Value × β} :
    (ps ++ [p]).find? (·.1.same e.1) = some e ↔
      ps.find? (·.1.same e.1) = some e ∨ ps.find? (·.1.same p.1) = none ∧ e = p := by
  rw [List.find?_append, Option.or_eq_some_iff, List.find?_singleton]
  refine or_congr_right ⟨fun ⟨hn, he⟩ => ?_, ?_⟩
  · split at he
    · obtain rfl := Option.some.inj he
      exact ⟨hn, rfl⟩
    · cases he
  · rintro ⟨hn, rfl⟩
    exact ⟨hn, if_pos (Value.same_refl _)⟩

/-- Entering a pair keeps the first of each key. -/
theorem indexes_enter {t : T.State} {ps : List (Value × β)} (ht : T.Indexes hash t ps)
    (p : Value × β) : T.Indexes hash (T.enter hash t p) (ps ++ [p]) := by
  intro h e
  rw [find?_append_eq_some, enter, lookup_eq_find? ht]
  cases hf : ps.find? (·.1.same p.1) with
  | some q => simp [ht h e]
  | none =>
      rw [T.holds_insert, ht h e, and_or_left, or_comm]
      refine or_congr_right ⟨?_, fun ⟨hh, _, he⟩ => ⟨he ▸ hh, he⟩⟩
      rintro ⟨rfl, rfl⟩
      exact ⟨rfl, rfl, rfl⟩

theorem ofPairs_append (ps : List (Value × β)) (p : Value × β) :
    T.ofPairs hash (ps ++ [p]) = T.enter hash (T.ofPairs hash ps) p := List.foldl_append

theorem indexes_ofPairs (ps : List (Value × β)) : T.Indexes hash (T.ofPairs hash ps) ps := by
  induction ps using List.reverseRecOn with
  | nil => exact indexes_empty
  | append_singleton ps p ih => exact ofPairs_append ps p ▸ indexes_enter ih p

theorem lookup_ofPairs (ps : List (Value × β)) (k : Value) :
    T.lookup hash k (T.ofPairs hash ps) = ps.find? (·.1.same k) :=
  lookup_eq_find? (indexes_ofPairs ps) k

/-- A key is found exactly if the same key was entered. -/
theorem isSome_lookup_iff (ps : List (Value × β)) (k : Value) :
    (T.lookup hash k (T.ofPairs hash ps)).isSome ↔ ∃ p ∈ ps, p.1.same k := by
  rw [lookup_ofPairs, List.find?_isSome]

end HashTable

/-! ### The fold with tables -/

section Fold

variable (hash : List HashWord → UInt64)

/-- The place of a row is that in the table of the index, or the end. -/
theorem Drafts.locate_fst (T : HashTable (Value × Nat)) (s : Shape) (row : Row) (m : Drafts) :
    (m.locate s row).1 =
      ((T.lookup hash (s.rootKey row) (T.ofPairs hash m.index)).map (·.2)).getD
        m.drafts.length := by
  rw [HashTable.lookup_ofPairs, locate]
  cases m.index.find? (·.1.same (s.rootKey row)) <;> rfl

/-- Locating a row enters its key, for the end, into the table of the index. -/
theorem Drafts.ofPairs_locate (T : HashTable (Value × Nat)) (s : Shape) (row : Row)
    (m : Drafts) :
    T.ofPairs hash (m.locate s row).2.index =
      T.enter hash (T.ofPairs hash m.index) (s.rootKey row, m.drafts.length) := by
  rw [HashTable.enter, HashTable.lookup_ofPairs, locate]
  cases h : m.index.find? (·.1.same (s.rootKey row)) with
  | some p => rfl
  | none => rw [HashTable.ofPairs_append, HashTable.enter, HashTable.lookup_ofPairs, h]

/-- A key was seen exactly if it is in the table of the keys. -/
theorem any_same_eq_isSome (T : HashTable (Value × Unit)) (keys : List Value) (key : Value) :
    keys.any (·.same key) =
      (T.lookup hash key (T.ofPairs hash (keys.map (·, ())))).isSome := by
  rw [Bool.eq_iff_iff, HashTable.isSome_lookup_iff, List.any_eq_true]
  simp

/-- A key that was not seen is entered into the table of the keys. -/
theorem ofPairs_seen (T : HashTable (Value × Unit)) (keys : List Value) (key : Value) :
    T.ofPairs hash ((if keys.any (·.same key) then keys else keys ++ [key]).map (·, ())) =
      T.enter hash (T.ofPairs hash (keys.map (·, ()))) (key, ()) := by
  rw [any_same_eq_isSome hash T]
  split
  · rename_i h
    obtain ⟨p, hp⟩ := Option.isSome_iff_exists.mp h
    rw [HashTable.enter, hp]
  · rw [List.map_append, List.map_singleton, HashTable.ofPairs_append]

end Fold

/-! ### Keys -/

/-- **Keys are lawful.**  Sameness is an equivalence of values, also of those that hold a NaN or a
zero at some depth; a hasher is fed alike for the same keys, and for no others; and without floats
sameness is equality.  So whichever hash is made of what is fed, and whichever table is used, a key
is found exactly if the same key was entered, with what came with the first such, and the index and
the seen keys of the fold can be kept in tables. -/
theorem keys_lawful :
    (∀ v : Value, v.same v) ∧
      (∀ v w : Value, v.same w → w.same v) ∧
      (∀ u v w : Value, u.same v → v.same w → u.same w) ∧
      (∀ v w : Value, v.same w ↔ v.hashWords = w.hashWords) ∧
      (∀ v w : Value, v.floatFree → v.same w = v.equal w) ∧
      (∀ {β : Type} (T : HashTable (Value × β)) hash ps k,
        ((T.lookup hash k (T.ofPairs hash ps)).isSome ↔ ∃ p ∈ ps, p.1.same k) ∧
          T.lookup hash k (T.ofPairs hash ps) = ps.find? (·.1.same k)) ∧
      (∀ (T : HashTable (Value × Nat)) hash s row (m : Drafts),
        (m.locate s row).1 =
            ((T.lookup hash (s.rootKey row) (T.ofPairs hash m.index)).map (·.2)).getD
              m.drafts.length ∧
          T.ofPairs hash (m.locate s row).2.index =
            T.enter hash (T.ofPairs hash m.index) (s.rootKey row, m.drafts.length)) ∧
      ∀ (T : HashTable (Value × Unit)) hash (keys : List Value) key,
        keys.any (·.same key) =
            (T.lookup hash key (T.ofPairs hash (keys.map (·, ())))).isSome ∧
          T.ofPairs hash ((if keys.any (·.same key) then keys else keys ++ [key]).map (·, ())) =
            T.enter hash (T.ofPairs hash (keys.map (·, ()))) (key, ()) := by
  refine ⟨Value.same_refl, fun v w h => ?_, fun u v w => Value.same_trans,
    fun v w => Value.hashWords_eq_iff.symm, fun v w hv => Value.same_eq_equal hv w,
    fun T hash ps k => ⟨HashTable.isSome_lookup_iff ps k, HashTable.lookup_ofPairs ps k⟩,
    fun T hash s row m => ⟨m.locate_fst hash T s row, m.ofPairs_locate hash T s row⟩,
    fun T hash keys key => ⟨any_same_eq_isSome hash T keys key, ofPairs_seen hash T keys key⟩⟩
  rwa [Value.same_comm]

/-- A list of hashes and entries, searched from the last to the first. -/
def HashTable.list (α : Type) : HashTable α where
  State := List (UInt64 × α)
  empty := []
  insert h a t := (h, a) :: t
  find h p t := (t.find? fun e => e.1 == h && p e.2).map (·.2)
  Holds t h a := (h, a) ∈ t
  not_holds_empty _ _ := List.not_mem_nil
  holds_insert h a t h' b := by rw [List.mem_cons, Prod.mk.injEq]
  find_sound h p t a ha := by
    obtain ⟨e, he, rfl⟩ := Option.map_eq_some_iff.mp ha
    have hs := List.find?_some he
    rw [Bool.and_eq_true] at hs
    exact ⟨hs.2, e.1, List.mem_of_find?_eq_some he⟩
  find_complete h p t a ht ha := by
    rw [Option.isSome_map, List.find?_isSome]
    exact ⟨(h, a), ht, by simpa using ha⟩

/-- A NaN with a zero behind it, positive or negative. -/
def nanKey (zero : UInt64) : Value :=
  .array [.float64 ⟨0x7FF8000000000000⟩, .array [.float64 ⟨zero⟩]]

/-- Keys with a NaN are found, and the zeros in them are told apart, where all hashes collide. -/
theorem keys_lawful_nan :
    (nanKey 0).equal (nanKey 0) = false ∧
      ((HashTable.list _).lookup (fun _ => 7) (nanKey 0)
        ((HashTable.list _).ofPairs (fun _ => 7)
          [(nanKey 0x8000000000000000, 'a'), (nanKey 0, 'b'), (nanKey 0, 'c')])).map (·.2) =
        some 'b' ∧
      (Value.array [.string "x", .null]).same (.array [.string "x"]) =
        (Value.array [.string "x", .null]).equal (.array [.string "x"]) ∧
      (nanKey 0).same (nanKey 0) := by
  obtain ⟨hrefl, hsymm, htrans, -, hequal, hlookup, -, -⟩ := keys_lawful
  refine ⟨by decide, ?_, hequal _ _ (by decide), ?_⟩
  · rw [(hlookup _ _ _ _).2]
    decide
  · exact htrans _ _ _ (hsymm _ _ (hrefl _)) (hrefl _)

end RowGraph
