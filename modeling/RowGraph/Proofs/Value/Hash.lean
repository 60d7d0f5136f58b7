import RowGraph.Proofs.Record.Firsts
import RowGraph.Proofs.Text.Utf8
import RowGraph.Value.Hash

/-!
# Proofs — Value — keys

Values are compared as keys by `Value.same`, which goes by the bits of floats at any depth.  It
tells values apart exactly if they are different (`Value.same_iff_eq`), so it is an equivalence,
also where equality as numbers is none: at a NaN, at the two zeros, and inside of arrays.

* `Value.same_eq_equal`: without floats it is equality of values.
* `Value.hashWords_append_inj`: no two values are written to a hasher alike, whatever is written
  behind them.

**A hasher is fed alike for two values exactly if they are the same key**
(`Value.hashWords_eq_iff`).
-/

namespace RowGraph.Value

/-! ### Sameness -/

theorem same_iff_eq {v w : Value} : v.same w ↔ v = w :=
  ⟨eq_of_same, fun h => h ▸ same_refl v⟩

theorem same_comm (v w : Value) : v.same w = w.same v := by
  rw [Bool.eq_iff_iff, same_iff_eq, same_iff_eq, eq_comm]

theorem same_trans {u v w : Value} (huv : u.same v) (hvw : v.same w) : u.same w := by
  rw [same_iff_eq] at *
  exact huv.trans hvw

mutual

/-- No float is in the value, at any depth. -/
def floatFree : Value → Bool
  | .float64 _ => false
  | .array items => floatFreeItems items
  | .null | .bool _ | .int64 _ | .string _ | .bytes _ => true

def floatFreeItems : List Value → Bool
  | [] => true
  | v :: vs => floatFree v && floatFreeItems vs

end

mutual

/-- Only floats are compared in two ways. -/
theorem same_eq_equal {v : Value} (hv : v.floatFree) (w : Value) : v.same w = v.equal w := by
  cases v with
  | float64 x => cases hv
  | array vs =>
      cases w with
      | array ws => exact sameItems_eq_equalItems hv ws
      | _ => rfl
  | _ => cases w <;> rfl

theorem sameItems_eq_equalItems {vs : List Value} (hvs : floatFreeItems vs) (ws : List Value) :
    sameItems vs ws = equalItems vs ws := by
  cases vs with
  | nil => cases ws <;> rfl
  | cons v vs =>
      cases ws with
      | nil => rfl
      | cons w ws =>
          rw [floatFreeItems, Bool.and_eq_true] at hvs
          rw [sameItems, equalItems, same_eq_equal hvs.1 w, sameItems_eq_equalItems hvs.2 ws]

end

/-! ### Hashing -/

mutual

/-- What is written for a value says where it ends. -/
theorem hashWords_append_inj {v w : Value} {x y : List HashWord}
    (h : v.hashWords ++ x = w.hashWords ++ y) : v = w ∧ x = y := by
  cases v with
  | array vs =>
      cases w with
      | array ws =>
          simp only [hashWords, List.cons_append, List.cons.injEq, HashWord.length.injEq] at h
          obtain ⟨-, hl, h⟩ := h
          obtain ⟨hvs, hxy⟩ := itemsHashWords_append_inj hl h
          exact ⟨congrArg array hvs, hxy⟩
      | _ => simp [hashWords] at h
  | float64 a =>
      cases w with
      | float64 b =>
          simp only [hashWords, List.cons_append, List.nil_append, List.cons.injEq,
            HashWord.uint64.injEq] at h
          obtain ⟨-, hbits, hxy⟩ := h
          exact ⟨by rw [show a = b from congrArg Binary64.mk hbits], hxy⟩
      | _ => simp [hashWords] at h
  | string s => cases w <;> simp_all [hashWords, Utf8.encode_inj]
  | bool b =>
      cases w with
      | bool c => cases b <;> cases c <;> simp_all [hashWords]
      | _ => simp [hashWords] at h
  | null | int64 _ | bytes _ => cases w <;> simp_all [hashWords]

theorem itemsHashWords_append_inj {vs ws : List Value} (hl : vs.length = ws.length)
    {x y : List HashWord} (h : itemsHashWords vs ++ x = itemsHashWords ws ++ y) :
    vs = ws ∧ x = y := by
  cases vs with
  | nil =>
      obtain rfl := List.length_eq_zero_iff.mp hl.symm
      exact ⟨rfl, h⟩
  | cons v vs =>
      obtain ⟨w, ws, rfl⟩ := List.exists_cons_of_length_eq_add_one hl.symm
      rw [itemsHashWords, itemsHashWords, List.append_assoc, List.append_assoc] at h
      obtain ⟨hv, hrest⟩ := hashWords_append_inj h
      obtain ⟨hvs, hxy⟩ := itemsHashWords_append_inj (Nat.succ.inj hl) hrest
      exact ⟨by rw [hv, hvs], hxy⟩

end

/-- **A hasher is fed alike for two values exactly if they are the same key.** -/
theorem hashWords_eq_iff {v w : Value} : v.hashWords = w.hashWords ↔ v.same w := by
  rw [same_iff_eq]
  constructor
  · intro h
    exact (hashWords_append_inj (x := []) (y := []) (congrArg (· ++ []) h)).1
  · rintro rfl
    rfl

end RowGraph.Value
