/-!
# Entries under names

The cells of a row, the members of an object and the columns of a declaration are entries under
names, and each of the three takes an entry alike: in place of the one of its name, or at the end if
there is none (`upsert`).  The names keep their places, and stay different.
-/

namespace RowGraph

variable {α : Type} {key : α → String}

/-- The entry in place of the first of its name, or at the end if there is none. -/
def upsert (key : α → String) (a : α) : List α → List α
  | [] => [a]
  | b :: bs => if key b = key a then a :: bs else b :: upsert key a bs

/-- Every name keeps its place, and a new one goes to the end. -/
theorem map_key_upsert (a : α) (as : List α) :
    (upsert key a as).map key =
      if key a ∈ as.map key then as.map key else as.map key ++ [key a] := by
  induction as with
  | nil => rfl
  | cons b bs ih =>
      by_cases hb : key b = key a
      · simp [upsert, hb]
      · have hab : ¬ key a = key b := fun h => hb h.symm
        rw [upsert, if_neg hb, List.map_cons, ih, List.map_cons]
        by_cases hm : key a ∈ bs.map key
        · rw [if_pos hm, if_pos (List.mem_cons_of_mem _ hm)]
        · rw [if_neg hm, if_neg fun h => (List.mem_cons.mp h).elim hab hm, List.cons_append]

/-- A name that is added to different names is added once. -/
theorem nodup_add {names : List String} (h : names.Nodup) (n : String) :
    (if n ∈ names then names else names ++ [n]).Nodup := by
  split
  case isTrue => exact h
  case isFalse hn =>
      refine List.nodup_append.mpr ⟨h, List.pairwise_singleton _ n, fun a ha b hb hab => hn ?_⟩
      rw [← List.mem_singleton.mp hb, ← hab]
      exact ha

theorem nodup_map_key_upsert (a : α) {as : List α} (h : (as.map key).Nodup) :
    ((upsert key a as).map key).Nodup := by
  rw [map_key_upsert]
  exact nodup_add h (key a)

end RowGraph
