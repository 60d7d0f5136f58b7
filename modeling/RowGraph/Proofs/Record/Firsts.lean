import Mathlib.Data.List.Basic
import RowGraph.Value.Basic

/-!
# Proofs — Record — the first of each key

Of entries that have keys, `firstsBy` keeps the first of each key, in the order in which the keys
are first met.  Keys are compared by `Value.same`, which tells values apart exactly if they are
different.
-/

namespace RowGraph

mutual

theorem Value.same_refl : ∀ v : Value, v.same v
  | .null => rfl
  | .bool b => by simp [Value.same]
  | .int64 i => by simp [Value.same]
  | .float64 x => by simp [Value.same]
  | .string s => by simp [Value.same]
  | .bytes bs => by simp [Value.same]
  | .array items => by
      rw [Value.same]
      exact sameItems_refl items

theorem Value.sameItems_refl : ∀ vs : List Value, Value.sameItems vs vs
  | [] => rfl
  | v :: vs => by
      rw [Value.sameItems, Value.same_refl v, Value.sameItems_refl vs]
      rfl

end

mutual

theorem Value.eq_of_same {v w : Value} (h : v.same w) : v = w := by
  cases v with
  | array as =>
      cases w with
      | array bs => exact congrArg Value.array (Value.eq_of_sameItems h)
      | _ => simp [Value.same] at h
  | _ => cases w <;> simp_all [Value.same]

theorem Value.eq_of_sameItems {vs ws : List Value} (h : Value.sameItems vs ws) : vs = ws := by
  cases vs with
  | nil =>
      cases ws with
      | nil => rfl
      | cons w ws => simp [Value.sameItems] at h
  | cons v vs =>
      cases ws with
      | nil => simp [Value.sameItems] at h
      | cons w ws =>
          rw [Value.sameItems, Bool.and_eq_true] at h
          rw [Value.eq_of_same h.1, Value.eq_of_sameItems h.2]

end

variable {α β : Type}

/-- The first entry of each key. -/
def firstsBy (key : α → Value) (as : List α) : List α :=
  as.eraseDupsBy fun a b => (key b).same (key a)

/-- The entries with another key. -/
def otherThan (key : α → Value) (a : α) (as : List α) : List α :=
  as.filter fun b => !(key a).same (key b)

theorem firstsBy_cons (key : α → Value) (a : α) (as : List α) :
    firstsBy key (a :: as) = a :: firstsBy key (otherThan key a as) := by
  rw [firstsBy, List.eraseDupsBy_cons, firstsBy, otherThan]
  simp

theorem mem_otherThan {key : α → Value} {a b : α} {as : List α} :
    b ∈ otherThan key a as ↔ b ∈ as ∧ (key a).same (key b) = false := by
  rw [otherThan, List.mem_filter, Bool.not_eq_eq_eq_not, Bool.not_true]

/-- The induction that goes with `firstsBy_cons`. -/
theorem firstsBy_induction (key : α → Value) {motive : List α → Prop} (nil : motive [])
    (cons : ∀ a as, motive (otherThan key a as) → motive (a :: as)) : ∀ as, motive as
  | [] => nil
  | a :: as => cons a as (firstsBy_induction key nil cons (otherThan key a as))
  termination_by as => as.length
  decreasing_by
    have h : (otherThan key a as).length ≤ as.length := List.length_filter_le _ _
    exact Nat.lt_succ_of_le h

theorem mem_of_mem_firstsBy {key : α → Value} {a : α} {as : List α} (h : a ∈ firstsBy key as) :
    a ∈ as := by
  induction as using firstsBy_induction key with
  | nil => exact h
  | cons b as ih =>
      rw [firstsBy_cons] at h
      rcases List.mem_cons.mp h with rfl | h
      · exact List.mem_cons_self
      · exact List.mem_cons_of_mem b (mem_otherThan.mp (ih h)).1

/-- Every key is that of a first entry. -/
theorem exists_mem_firstsBy {key : α → Value} {a : α} {as : List α} (h : a ∈ as) :
    ∃ b ∈ firstsBy key as, (key b).same (key a) := by
  induction as using firstsBy_induction key with
  | nil => cases h
  | cons b as ih =>
      rw [firstsBy_cons]
      by_cases hk : (key b).same (key a)
      · exact ⟨b, List.mem_cons_self, hk⟩
      · have hne : a ≠ b := by
          rintro rfl
          exact hk (Value.same_refl _)
        have ha : a ∈ as := (List.mem_cons.mp h).resolve_left hne
        obtain ⟨c, hc, hca⟩ := ih (mem_otherThan.mpr ⟨ha, by simpa using hk⟩)
        exact ⟨c, List.mem_cons_of_mem b hc, hca⟩

theorem pairwise_firstsBy (key : α → Value) (as : List α) :
    (firstsBy key as).Pairwise fun a b => (key a).same (key b) = false := by
  induction as using firstsBy_induction key with
  | nil => exact .nil
  | cons a as ih =>
      rw [firstsBy_cons]
      exact List.pairwise_cons.mpr ⟨fun b hb => (mem_otherThan.mp (mem_of_mem_firstsBy hb)).2, ih⟩

/-- Keys that are read off first are compared in the same way. -/
theorem firstsBy_map (key : α → Value) (f : β → α) (bs : List β) :
    firstsBy key (bs.map f) = (firstsBy (fun b => key (f b)) bs).map f := by
  induction bs using firstsBy_induction fun b => key (f b) with
  | nil => rfl
  | cons b bs ih =>
      have h : otherThan key (f b) (bs.map f) = (otherThan (fun b => key (f b)) b bs).map f :=
        List.filter_map
      rw [List.map_cons, firstsBy_cons, firstsBy_cons, h, ih, List.map_cons]

end RowGraph
