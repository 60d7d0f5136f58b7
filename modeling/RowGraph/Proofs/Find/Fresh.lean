import Mathlib.Data.List.Nodup
import RowGraph.Find.Plan
import RowGraph.Proofs.Requirement

/-!
# Proofs — Find — one alias after another

Tables take their aliases in order, and an alias that is taken already is refused.  What taking them
requires is a list (`freshAliases`), which is met if no alias comes twice (`met_freshAliases`).
-/

namespace RowGraph

/-- None of the aliases is in use, and none comes twice. -/
def freshAliases : List String → List String → List Requirement
  | _, [] => []
  | used, a :: as => ⟨a ∉ used, .ambiguousAlias a⟩ :: freshAliases (a :: used) as

theorem freshAliases_append (used as bs : List String) :
    freshAliases used (as ++ bs) =
      freshAliases used as ++ freshAliases (as.reverse ++ used) bs := by
  induction as generalizing used with
  | nil => rfl
  | cons a as ih =>
      rw [List.cons_append, freshAliases, freshAliases, ih, List.reverse_cons, List.append_assoc]
      rfl

theorem reason_freshAliases {used as : List String} {q : Requirement}
    (hq : q ∈ freshAliases used as) : ∃ a, q.reason = .ambiguousAlias a := by
  induction as generalizing used with
  | nil => cases hq
  | cons a as ih =>
      rcases List.mem_cons.mp hq with rfl | hq
      · exact ⟨a, rfl⟩
      · exact ih hq

/-- The aliases can be taken if none of them is taken twice. -/
theorem met_freshAliases {used as : List String} (hu : used.Nodup) :
    (∀ q ∈ freshAliases used as, q.met) ↔ (used ++ as).Nodup := by
  induction as generalizing used with
  | nil => simpa [freshAliases] using hu
  | cons a as ih =>
      rw [freshAliases, List.forall_mem_cons, List.perm_middle.nodup_iff]
      constructor
      · rintro ⟨ha, has⟩
        exact (ih (List.nodup_cons.mpr ⟨ha, hu⟩)).mp has
      · intro hn
        have hau : (a :: used).Nodup := hn.of_append_left
        exact ⟨(List.nodup_cons.mp hau).1, (ih hau).mpr hn⟩

theorem requires_takeAlias (used : List String) (a : String) :
    Requires (takeAlias used a) [⟨a ∉ used, .ambiguousAlias a⟩] := by
  have hu : used.contains a = true ↔ a ∈ used := List.contains_iff_mem
  refine requires_cons.mpr ⟨fun h => ?_, fun h => if_pos (hu.mpr (not_not.mp h))⟩
  rw [takeAlias, if_neg (hu.not.mpr h)]
  exact requires_ok _

theorem takeAlias_eq_ok {used used' : List String} {a : String}
    (h : takeAlias used a = .ok used') : used' = a :: used := by
  unfold takeAlias at h
  split at h
  · cases h
  · exact (Except.ok.inj h).symm

theorem foldlM_takeAlias_eq_ok {used used' as : List String}
    (h : as.foldlM takeAlias used = .ok used') : used' = as.reverse ++ used := by
  induction as generalizing used with
  | nil => exact (Except.ok.inj h).symm
  | cons a as ih =>
      obtain ⟨used₁, ha, h⟩ := bind_eq_ok h
      rw [ih h, takeAlias_eq_ok ha, List.reverse_cons, List.append_assoc]
      rfl

theorem requires_foldlM_takeAlias (used as : List String) :
    Requires (as.foldlM takeAlias used) (freshAliases used as) := by
  induction as generalizing used with
  | nil => exact requires_ok used
  | cons a as ih =>
      refine (requires_takeAlias used a).bind fun used' h => ?_
      rw [takeAlias_eq_ok h]
      exact ih (a :: used)

/-- The joins take their aliases in order. -/
theorem requires_requireDistinct (used : List String) (js : List Join) :
    Requires (requireDistinct used js) (freshAliases used (js.map (·.aliasName))) := by
  induction js generalizing used with
  | nil => exact requires_ok ()
  | cons j js ih =>
      refine (requires_takeAlias used j.aliasName).bind fun used' h => ?_
      rw [takeAlias_eq_ok h]
      exact ih (j.aliasName :: used)

/-- Aliases of which none is taken twice are all in use afterwards. -/
theorem foldlM_takeAlias {used as : List String} (hn : (as.reverse ++ used).Nodup) :
    as.foldlM takeAlias used = .ok (as.reverse ++ used) := by
  have hp : (as.reverse ++ used).Perm (used ++ as) :=
    List.perm_append_comm.trans ((List.reverse_perm as).append_left used)
  obtain ⟨used', h⟩ := (requires_foldlM_takeAlias used as).ok_iff.mpr
    ((met_freshAliases hn.of_append_right).mpr (hp.nodup_iff.mp hn))
  rw [h, foldlM_takeAlias_eq_ok h]

theorem requireDistinct_eq_ok {used : List String} {js : List Join}
    (h : requireDistinct used js = .ok ()) (hu : used.Nodup) :
    (used ++ js.map (·.aliasName)).Nodup :=
  (met_freshAliases hu).mp ((requires_requireDistinct used js).ok_iff.mp ⟨(), h⟩)

end RowGraph
