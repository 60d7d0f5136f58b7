import Mathlib.Data.List.Nodup
import RowGraph.Upsert

/-!
# Proofs — entries under names

What putting an entry among others (`upsert`) does to what is found there.

* `find?_upsert`: under its name the entry is found, and under another what was found before.
* `getElem?_upsert_of_ne`: no entry of another name changes, moves, comes or goes.
* `foldl_upsert_of_nodup`: entries of different names stand in the order in which they are put.
-/

namespace RowGraph

/-! ### Names in the order of their first mention -/

/-- A name that is added stands where it stood, or at the end if it stood nowhere. -/
theorem getElem?_add {names : List String} {n : String} {i : Nat} :
    (if n ∈ names then names else names ++ [n])[i]? = some n ↔
      names[i]? = some n ∨ n ∉ names ∧ i = names.length := by
  split
  case isTrue hn => simp [hn]
  case isFalse hn =>
      have hi : names[i]? ≠ some n := fun hi => hn (List.mem_of_getElem? hi)
      rw [or_iff_right hi, and_iff_right hn]
      rcases Nat.lt_trichotomy i names.length with hlt | rfl | hlt
      · rw [List.getElem?_append_left hlt]
        exact iff_of_false hi (Nat.ne_of_lt hlt)
      · simp
      · have hend : (names ++ [n])[i]? = none := by
          rw [List.getElem?_eq_none_iff, List.length_append]
          exact hlt
        rw [hend]
        exact iff_of_false nofun (Nat.ne_of_gt hlt)

/-! ### Putting an entry -/

variable {α : Type} {key : α → String}

theorem upsert_of_not_mem {a : α} {as : List α} (h : key a ∉ as.map key) :
    upsert key a as = as ++ [a] := by
  induction as with
  | nil => rfl
  | cons b bs ih =>
      rw [List.map_cons, List.mem_cons, not_or] at h
      obtain ⟨hb, hbs⟩ := h
      rw [upsert, if_neg (Ne.symm hb), ih hbs, List.cons_append]

theorem find?_upsert (a : α) (as : List α) (n : String) :
    (upsert key a as).find? (key · == n) =
      if n = key a then some a else as.find? (key · == n) := by
  induction as with
  | nil => by_cases hn : n = key a <;> simp [upsert, hn, Ne.symm]
  | cons b bs ih =>
      by_cases hb : key b = key a
      · by_cases hn : n = key a
        · simp [upsert, hb, hn]
        · simp [upsert, hb, hn, Ne.symm hn]
      · by_cases hn : key b = n
        · have hna : ¬ n = key a := fun h => hb (hn.trans h)
          simp [upsert, hn, hna]
        · have hbn : (key b == n) = false := beq_false_of_ne hn
          rw [upsert, if_neg hb, List.find?_cons, List.find?_cons, hbn, ih]

/-- No entry of another name changes or moves, and none comes or goes. -/
theorem getElem?_upsert_of_ne {a b : α} (h : key b ≠ key a) (as : List α) (i : Nat) :
    (upsert key a as)[i]? = some b ↔ as[i]? = some b := by
  have hab : a ≠ b := fun he => h (he ▸ rfl)
  induction as generalizing i with
  | nil => cases i <;> simp [upsert, hab]
  | cons c cs ih =>
      by_cases hc : key c = key a
      · have hcb : c ≠ b := fun he => h (he ▸ hc)
        rw [upsert, if_pos hc]
        cases i <;> simp [hab, hcb]
      · rw [upsert, if_neg hc]
        cases i with
        | zero => rfl
        | succ i => exact ih i

/-- What is put under different names one after the other stands there in this order. -/
theorem foldl_upsert_of_nodup (as : List α) {bs : List α} (h : ((as ++ bs).map key).Nodup) :
    bs.foldl (fun acc b => upsert key b acc) as = as ++ bs := by
  induction bs generalizing as with
  | nil => rw [List.foldl_nil, List.append_nil]
  | cons b bs ih =>
      have hb : key b ∉ as.map key := by
        rw [List.map_append, List.map_cons] at h
        exact fun hm => List.disjoint_of_nodup_append h hm List.mem_cons_self
      rw [List.foldl_cons, upsert_of_not_mem hb, ih _ (by simpa using h), List.append_assoc,
        List.singleton_append]

end RowGraph
