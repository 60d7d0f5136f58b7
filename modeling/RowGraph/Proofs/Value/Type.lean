import RowGraph.Proofs.Value.Json

/-!
# Proofs — Value — types of values

A scalar that is not null has a type (`Value.Typed`).  An array has none of its own: one is looked
for in its items, from the first on, and an item that has none, an array at any depth included, is
passed over.

* `dataType?_eq_findSome?`: this search goes through the leaves of a value, left to right.
* `paramType?_array`, `paramType?_scalar`: how a parameter is declared.

**The type of a value is that of its first leaf that is not null** (`type_of_first_leaf`), and a
parameter is declared with this type, or with an array of it.
-/

namespace RowGraph

/-! ### Spellings -/

namespace DataType

theorem name_injective : Function.Injective name := by
  intro s t h
  have hs := ofName?_name s
  rw [h, ofName?_name] at hs
  exact (Option.some.inj hs).symm

/-- No scalar type is spelled as an array. -/
theorem name_ne_array (s t : DataType) : s.name ≠ "ARRAY<" ++ t.name ++ ">" := by
  have hs : s.name.toList.head? ≠ some 'A' := by cases s <;> decide
  intro h
  rw [h, String.toList_append, String.toList_append] at hs
  exact hs rfl

theorem array_name_inj {s t : DataType} :
    "ARRAY<" ++ s.name ++ ">" = "ARRAY<" ++ t.name ++ ">" ↔ s = t := by
  rw [String.append_left_inj, String.append_right_inj, name_injective.eq_iff]

end DataType

namespace Value

/-! ### The types of leaves -/

/-- The type of a scalar; null has none. -/
inductive Typed : Value → DataType → Prop where
  | bool (b : Bool) : Typed (.bool b) .bool
  | int64 (i : Int64) : Typed (.int64 i) .int64
  | float64 (x : Binary64) : Typed (.float64 x) .float64
  | string (s : String) : Typed (.string s) .string
  | bytes (bs : List UInt8) : Typed (.bytes bs) .bytes

mutual

/-- Flattening a value leaves no array. -/
theorem ne_array_of_mem_leaves {l : Value} : ∀ (v : Value), l ∈ v.leaves → ∀ items, l ≠ .array items
  | .array vs, hl => ne_array_of_mem_leavesOf vs hl
  | .null, hl | .bool _, hl | .int64 _, hl | .float64 _, hl | .string _, hl | .bytes _, hl => by
      rw [List.mem_singleton.mp hl]
      exact fun _ => nofun

theorem ne_array_of_mem_leavesOf {l : Value} :
    ∀ (vs : List Value), l ∈ leavesOf vs → ∀ items, l ≠ .array items
  | [], hl => absurd hl List.not_mem_nil
  | v :: vs, hl => (List.mem_append.mp hl).elim (ne_array_of_mem_leaves v)
      (ne_array_of_mem_leavesOf vs)

end

section Leaf

variable {l : Value} {t : DataType}

theorem dataType?_leaf_eq_some (hl : ∀ items, l ≠ .array items) :
    l.dataType? = some t ↔ l.Typed t := by
  constructor
  · intro h
    cases l with
    | array items => exact absurd rfl (hl items)
    | null => cases h
    | _ => cases h; constructor
  · rintro ⟨⟩ <;> rfl

theorem dataType?_leaf_eq_none (hl : ∀ items, l ≠ .array items) :
    l.dataType? = none ↔ l = .null := by
  cases l with
  | array items => exact absurd rfl (hl items)
  | null => exact iff_of_true rfl rfl
  | _ => exact iff_of_false nofun nofun

end Leaf

/-! ### The first leaf that has a type -/

mutual

/-- Items are passed over as long as no leaf of theirs has a type. -/
theorem dataType?_eq_findSome? : ∀ v : Value, v.dataType? = v.leaves.findSome? dataType?
  | .array items => firstType?_eq_findSome? items
  | .null | .bool _ | .int64 _ | .float64 _ | .string _ | .bytes _ => rfl

theorem firstType?_eq_findSome? :
    ∀ vs : List Value, firstType? vs = (leavesOf vs).findSome? dataType?
  | [] => rfl
  | v :: vs => by
      rw [firstType?, leavesOf, List.findSome?_append, dataType?_eq_findSome? v,
        firstType?_eq_findSome? vs]

end

/-- Of the values that are not null, the first has the type. -/
def FirstTyped (vs : List Value) (t : DataType) : Prop :=
  ∃ nulls l rest, vs = nulls ++ l :: rest ∧ (∀ x ∈ nulls, x = .null) ∧ l.Typed t

theorem dataType?_eq_some_iff {v : Value} {t : DataType} :
    v.dataType? = some t ↔ FirstTyped v.leaves t := by
  have hleaf : ∀ l ∈ v.leaves, ∀ items, l ≠ .array items := fun _ => ne_array_of_mem_leaves v
  rw [dataType?_eq_findSome?, List.findSome?_eq_some_iff]
  constructor
  · rintro ⟨nulls, l, rest, hv, hl, hn⟩
    rw [hv] at hleaf
    refine ⟨nulls, l, rest, hv, fun x hx => ?_, ?_⟩
    · exact (dataType?_leaf_eq_none (hleaf x (by simp [hx]))).mp (hn x hx)
    · exact (dataType?_leaf_eq_some (hleaf l (by simp))).mp hl
  · rintro ⟨nulls, l, rest, hv, hn, hl⟩
    rw [hv] at hleaf
    refine ⟨nulls, l, rest, hv, ?_, fun x hx => ?_⟩
    · exact (dataType?_leaf_eq_some (hleaf l (by simp))).mpr hl
    · rw [hn x hx]
      rfl

theorem dataType?_eq_none_iff {v : Value} : v.dataType? = none ↔ ∀ l ∈ v.leaves, l = .null := by
  rw [dataType?_eq_findSome?, List.findSome?_eq_none_iff]
  exact forall₂_congr fun l hl => dataType?_leaf_eq_none (ne_array_of_mem_leaves v hl)

/-! ### Parameters -/

theorem paramType?_array (items : List Value) : (array items).paramType? =
    (array items).dataType?.map fun t => "ARRAY<" ++ t.name ++ ">" := rfl

theorem paramType?_scalar {v : Value} (hv : ∀ items, v ≠ .array items) :
    v.paramType? = v.dataType?.map DataType.name := by
  cases v with
  | array items => exact absurd rfl (hv items)
  | _ => rfl

theorem paramType?_eq_none_iff {v : Value} : v.paramType? = none ↔ v.dataType? = none := by
  by_cases h : ∃ items, v = array items
  · obtain ⟨items, rfl⟩ := h
    rw [paramType?_array, Option.map_eq_none_iff]
  · rw [paramType?_scalar (not_exists.mp h), Option.map_eq_none_iff]

/-- Exactly arrays are declared as arrays. -/
theorem paramType?_eq_array_iff {v : Value} {t : DataType} :
    v.paramType? = some ("ARRAY<" ++ t.name ++ ">") ↔
      (∃ items, v = .array items) ∧ v.dataType? = some t := by
  by_cases h : ∃ items, v = array items
  · obtain ⟨items, rfl⟩ := h
    rw [paramType?_array, Option.map_eq_some_iff, and_iff_right ⟨items, rfl⟩]
    simp only [DataType.array_name_inj, exists_eq_right]
  · rw [paramType?_scalar (not_exists.mp h), Option.map_eq_some_iff]
    refine iff_of_false ?_ fun hv => h hv.1
    rintro ⟨s, -, hs⟩
    exact s.name_ne_array t hs

theorem paramType?_eq_name_iff {v : Value} {t : DataType} :
    v.paramType? = some t.name ↔ (∀ items, v ≠ .array items) ∧ v.dataType? = some t := by
  by_cases h : ∃ items, v = array items
  · obtain ⟨items, rfl⟩ := h
    rw [paramType?_array, Option.map_eq_some_iff]
    refine iff_of_false ?_ fun hv => hv.1 items rfl
    rintro ⟨s, -, hs⟩
    exact t.name_ne_array s hs.symm
  · rw [paramType?_scalar (not_exists.mp h), Option.map_eq_some_iff,
      and_iff_right (not_exists.mp h)]
    simp only [DataType.name_injective.eq_iff, exists_eq_right]

/-! ### Types -/

/-- **The type of a value is that of its first leaf that is not null**, and it has none exactly if
all its leaves are null.  A parameter is declared exactly if it has a type: as an array of this type
exactly if it is an array, however deep, and else with the type itself. -/
theorem type_of_first_leaf (v : Value) :
    (∀ t, v.dataType? = some t ↔ FirstTyped v.leaves t) ∧
      (v.dataType? = none ↔ ∀ l ∈ v.leaves, l = .null) ∧
      (v.paramType? = none ↔ v.dataType? = none) ∧
      ∀ t, (v.paramType? = some ("ARRAY<" ++ t.name ++ ">") ↔
          (∃ items, v = .array items) ∧ v.dataType? = some t) ∧
        (v.paramType? = some t.name ↔ (∀ items, v ≠ .array items) ∧ v.dataType? = some t) :=
  ⟨fun _ => dataType?_eq_some_iff, dataType?_eq_none_iff, paramType?_eq_none_iff,
    fun _ => ⟨paramType?_eq_array_iff, paramType?_eq_name_iff⟩⟩

/-- An array without a type, in front of one in which a float is met first. -/
def undecided : Value :=
  .array [.array [.array [], .null], .array [.null, .array [.float64 ⟨0⟩, .bool true]], .string "x"]

/-- It is declared as an array of floats, and what stands in front of the float not at all. -/
theorem type_of_first_leaf_undecided :
    undecided.dataType? = some .float64 ∧ undecided.paramType? = some "ARRAY<FLOAT64>" ∧
      undecided.paramType? ≠ some "FLOAT64" ∧
      (array [.array [], .null]).dataType? = none ∧
      (array [.array [], .null]).paramType? = none := by
  obtain ⟨htype, -, -, hparam⟩ := type_of_first_leaf undecided
  obtain ⟨-, hnull, hnone, -⟩ := type_of_first_leaf (array [.array [], .null])
  have hfirst : undecided.dataType? = some .float64 := by
    refine (htype _).mpr ⟨[.null, .null], .float64 ⟨0⟩, [.bool true, .string "x"], rfl, ?_, ?_⟩
    · simp
    · exact .float64 _
  have hleaves : (array [.array [], .null]).dataType? = none :=
    hnull.mpr fun l hl => List.mem_singleton.mp hl
  exact ⟨hfirst, (hparam .float64).1.mpr ⟨⟨_, rfl⟩, hfirst⟩,
    fun h => ((hparam .float64).2.mp h).1 _ rfl, hleaves, hnone.mpr hleaves⟩

end Value

end RowGraph
