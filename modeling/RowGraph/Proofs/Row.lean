import Mathlib.Data.List.Induction
import RowGraph.Proofs.Upsert
import RowGraph.Row

/-!
# Proofs — rows by their names

Setting a name puts a cell among the others: its name keeps its place or is the last (`names_set`),
and it is found under its name alone (`get?_set`).

A row made from pairs with different names has exactly these cells, and each name has the value it
was paired with (`Row.get_ofList`).
-/

namespace RowGraph.Row

variable {r : Row} {name : String} {value : Value}

/-! ### Setting a name -/

theorem nodup_names (r : Row) : r.names.Nodup := r.nodup

theorem names_set (r : Row) (name : String) (value : Value) :
    (r.set name value).names = if name ∈ r.names then r.names else r.names ++ [name] :=
  map_key_upsert (name, value) r.cells

theorem get?_set (r : Row) (name : String) (value : Value) (n : String) :
    (r.set name value).get? n = if n = name then some value else r.get? n := by
  rw [get?, set, find?_upsert]
  split <;> rfl

/-! ### Names and cells -/

theorem contains_iff : r.contains name ↔ name ∈ r.names := by
  simp [contains, get?, names]

theorem get?_eq_none_iff : r.get? name = none ↔ name ∉ r.names := by
  rw [← contains_iff, contains, Option.not_isSome_iff_eq_none]

theorem mem_of_get? (h : r.get? name = some value) : (name, value) ∈ r.cells := by
  obtain ⟨⟨n, v⟩, hf, rfl⟩ := Option.map_eq_some_iff.mp h
  obtain rfl : n = name := by simpa using List.find?_some hf
  exact List.mem_of_find?_eq_some hf

/-- Each cell is found under its name. -/
theorem get?_of_mem (hm : (name, value) ∈ r.cells) : r.get? name = some value := by
  cases hg : r.get? name with
  | none => exact absurd (List.mem_map.mpr ⟨_, hm, rfl⟩) (get?_eq_none_iff.mp hg)
  | some v =>
      have hv := List.inj_on_of_nodup_map r.nodup (mem_of_get? hg) hm rfl
      rw [(Prod.mk.inj hv).2]

/-- A cell is the value of the name that stands there. -/
theorem getElem?_cells_iff {i : Nat} :
    r.cells[i]? = some (name, value) ↔ r.names[i]? = some name ∧ r.get? name = some value := by
  rw [names, List.getElem?_map, Option.map_eq_some_iff]
  constructor
  · intro hc
    exact ⟨⟨_, hc, rfl⟩, get?_of_mem (List.mem_of_getElem? hc)⟩
  · rintro ⟨⟨⟨n, v⟩, hc, rfl⟩, hv⟩
    have hn := get?_of_mem (List.mem_of_getElem? hc)
    rw [hc, Option.some.inj (hn.symm.trans hv)]

/-! ### Rows made from pairs -/

theorem ofList_append (pairs : List (String × Value)) (p : String × Value) :
    ofList (pairs ++ [p]) = (ofList pairs).set p.1 p.2 := List.foldl_append

theorem cells_ofList (pairs : List (String × Value)) :
    (ofList pairs).cells = pairs.foldl (fun cells p => upsert (·.1) p cells) [] :=
  (List.foldl_hom cells fun _ _ => rfl).symm

/-- Pairs with different names become the cells as they are. -/
theorem ofList_of_nodup {pairs : List (String × Value)} (h : (pairs.map (·.1)).Nodup) :
    ofList pairs = ⟨pairs, h⟩ :=
  Row.ext ((cells_ofList pairs).trans (foldl_upsert_of_nodup [] h))

/-- Each name has the value it was paired with. -/
theorem get_ofList {pairs : List (String × Value)} (h : (pairs.map (·.1)).Nodup)
    (hm : (name, value) ∈ pairs) : (ofList pairs).get name = value := by
  rw [ofList_of_nodup h, get, get?_of_mem hm, Option.getD_some]

/-- Names that are paired with what a function says of them have this value, as often as they are
paired. -/
theorem get?_ofList_map (f : String → Value) (names : List String) (n : String) :
    (ofList (names.map fun m => (m, f m))).get? n = if n ∈ names then some (f n) else none := by
  induction names using List.reverseRecOn with
  | nil => rfl
  | append_singleton names m ih =>
      rw [List.map_append, List.map_singleton, ofList_append, get?_set, ih]
      by_cases hn : n = m <;> simp [hn]

end RowGraph.Row
