import RowGraph.Proofs.Record.Gathered

/-!
# Proofs — Record — the keys of records

`Value.distinct` keeps each value once, as it is first met, and leaves nulls out.  **The groups of
flat rows have the distinct root keys of the rows, in this order** (`Shape.keys_groups`), whatever
the rows are.
-/

namespace RowGraph

namespace Value

/-- The values but nulls, each once and in the order in which they are first met. -/
def distinct (vs : List Value) : List Value :=
  (vs.filter fun v => !v.isNull).eraseDupsBy fun v w => w.same v

/-- Adds a value that is not null and has not been met. -/
def meet (met : List Value) (v : Value) : List Value :=
  if v.isNull || met.any (·.same v) then met else met ++ [v]

theorem distinct_cons_null {v : Value} (hv : v.isNull) (vs : List Value) :
    distinct (v :: vs) = distinct vs := by
  simp [distinct, hv]

theorem distinct_cons {v : Value} (hv : v.isNull = false) (vs : List Value) :
    distinct (v :: vs) = v :: distinct (vs.filter fun w => !v.same w) := by
  simp [distinct, hv, List.eraseDupsBy_cons, List.filter_filter, Bool.and_comm]

theorem foldl_meet (met vs : List Value) :
    vs.foldl meet met = met ++ distinct (vs.filter fun v => !met.any (·.same v)) := by
  induction vs generalizing met with
  | nil => simp [distinct]
  | cons v vs ih =>
      rw [List.foldl_cons, ih, meet]
      cases hv : v.isNull with
      | true =>
          rw [Bool.true_or, if_pos rfl, List.filter_cons]
          split
          · rw [distinct_cons_null hv]
          · rfl
      | false =>
          by_cases hm : met.any (·.same v)
          · simp [hm]
          · simp [hm, distinct_cons hv, List.filter_filter, Bool.and_comm]

theorem mem_distinct {v : Value} {vs : List Value} :
    v ∈ distinct vs ↔ v ∈ vs ∧ v.isNull = false := by
  have hf : v ∈ vs.filter (fun v => !v.isNull) ↔ v ∈ vs ∧ v.isNull = false := by
    rw [List.mem_filter, Bool.not_eq_eq_eq_not, Bool.not_true]
  rw [← hf]
  refine ⟨@mem_of_mem_firstsBy _ (fun v => v) v _, fun h => ?_⟩
  obtain ⟨w, hw, hs⟩ := @exists_mem_firstsBy _ (fun v => v) v _ h
  exact eq_of_same hs ▸ hw

theorem nodup_distinct (vs : List Value) : (distinct vs).Nodup := by
  refine (pairwise_firstsBy (fun v => v) _).imp fun {v w} h => ?_
  rintro rfl
  rw [same_refl] at h
  cases h

end Value

namespace Shape

variable {s : Shape}

theorem keys_addRow (k : Value) (row : Row) (gs : List Group) :
    (s.addRow k row gs).map (·.key) =
      if (gs.map (·.key)).any (·.same k) then gs.map (·.key) else gs.map (·.key) ++ [k] := by
  induction gs with
  | nil => rfl
  | cons g gs ih =>
      rw [addRow]
      by_cases h : g.key.same k
      · simp [h, Group.absorb]
      · simp only [h, Bool.false_eq_true, if_false, List.map_cons, ih, List.any_cons, Bool.false_or]
        split <;> rfl

/-- A row is a meeting with its key. -/
theorem keys_step (gs : List Group) (row : Row) :
    (s.step gs row).map (·.key) = Value.meet (gs.map (·.key)) (row.get s.root.keyLabel) := by
  rw [step, Value.meet]
  cases hv : (row.get s.root.keyLabel).isNull with
  | true => rfl
  | false => exact keys_addRow _ _ _

/-- **The keys of the groups are the distinct root keys of the rows.** -/
theorem keys_groups (s : Shape) (rows : List Row) : (s.groups rows).map (·.key) =
    Value.distinct (rows.map (·.get s.root.keyLabel)) := by
  have hfold (gs : List Group) :
      rows.foldl (fun met row => Value.meet met (row.get s.root.keyLabel)) (gs.map (·.key)) =
        (rows.foldl s.step gs).map (·.key) :=
    List.foldl_hom (List.map (·.key)) fun gs row => (keys_step gs row).symm
  rw [groups, ← hfold [], ← List.foldl_map, Value.foldl_meet]
  simp

theorem length_records (hs : s.includes ≠ []) (rows : List Row) :
    (s.records rows).length = (Value.distinct (rows.map (·.get s.root.keyLabel))).length := by
  rw [records, if_neg (by simpa using hs), List.length_map, ← s.keys_groups rows, List.length_map]

end Shape

end RowGraph
