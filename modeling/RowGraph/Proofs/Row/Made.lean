import Mathlib.Data.Finset.Card
import RowGraph.Proofs.Row

/-!
# Proofs — Row — rows as ordered maps

A row is made from the empty one by settings, one after the other (`Row.Made`).  What it holds is
said of the settings alone: its names are those that were set, in the order in which each was set
for the first time, and the value of each is that of the last time (`Row.Ordered`).

* `Ordered.set`: one more setting keeps this.
* `Made.ordered`: so it holds of every row that is made.
* `sets_set`: what a setting does to the cells of a row, place by place.

**A row is an ordered map of what was set** (`made_in_order`), and so is a row made from pairs, or
from the members of an object.
-/

namespace RowGraph.Row

/-! ### Settings -/

/-- The row is made from the empty one by the settings, in their order. -/
inductive Made : List (String × Value) → Row → Prop where
  | empty : Made [] empty
  | set {settings : List (String × Value)} {r : Row} (h : Made settings r) (name : String)
      (value : Value) : Made (settings ++ [(name, value)]) (r.set name value)

/-- How many settings there are before the name is set. -/
def firstSet (settings : List (String × Value)) (name : String) : Nat :=
  (settings.map (·.1)).idxOf name

/-- When the name was set last, it was set to the value. -/
def LastSet (settings : List (String × Value)) (name : String) (value : Value) : Prop :=
  ∃ before after, settings = before ++ (name, value) :: after ∧ name ∉ after.map (·.1)

section Settings

variable {settings : List (String × Value)} {name n : String} {value v : Value}

/-- A name that was set keeps its first time. -/
theorem firstSet_append_of_mem (h : n ∈ settings.map (·.1)) (more : List (String × Value)) :
    firstSet (settings ++ more) n = firstSet settings n := by
  rw [firstSet, List.map_append, List.idxOf_append_of_mem h, firstSet]

/-- A name that was not set is set behind all others. -/
theorem firstSet_lt_append (hn : n ∈ settings.map (·.1)) (h : name ∉ settings.map (·.1)) :
    firstSet settings n < firstSet (settings ++ [(name, value)]) name := by
  have hnew : firstSet (settings ++ [(name, value)]) name = (settings.map (·.1)).length := by
    rw [firstSet, List.map_append, List.idxOf_append_of_notMem h]
    simp
  rw [hnew]
  exact List.idxOf_lt_length_of_mem hn

theorem lastSet_append : LastSet (settings ++ [(name, value)]) n v ↔
    if n = name then v = value else LastSet settings n v := by
  constructor
  · rintro ⟨before, after, he, hn⟩
    -- the setting at the end is the last of the name, or comes after it
    rcases List.eq_nil_or_concat' after with rfl | ⟨after, last, rfl⟩
    · obtain ⟨-, hlast⟩ := List.append_singleton_inj.mp he
      obtain ⟨rfl, rfl⟩ := Prod.mk.inj hlast
      exact (if_pos rfl).mpr rfl
    · rw [← List.cons_append, ← List.append_assoc] at he
      obtain ⟨hsettings, rfl⟩ := List.append_singleton_inj.mp he
      rw [List.map_append, List.mem_append, not_or] at hn
      rw [if_neg fun hname => hn.2 (by simp [hname])]
      exact ⟨before, after, hsettings, hn.1⟩
  · intro h
    split at h
    case isTrue hn =>
        subst hn h
        exact ⟨settings, [], rfl, List.not_mem_nil⟩
    case isFalse hn =>
        obtain ⟨before, after, rfl, ha⟩ := h
        exact ⟨before, after ++ [(name, value)], by simp, by simpa [hn] using ha⟩

end Settings

/-! ### What a row holds -/

/-- The row holds what was set, as an ordered map does. -/
structure Ordered (r : Row) (settings : List (String × Value)) : Prop where
  mem_names : ∀ n, n ∈ r.names ↔ n ∈ settings.map (·.1)
  /-- The names stand in the order in which each was first set. -/
  ascending : r.names.Pairwise fun m n => firstSet settings m < firstSet settings n
  /-- The value of a name is that to which it was last set. -/
  value : ∀ n v, r.get? n = some v ↔ LastSet settings n v

theorem ordered_empty : empty.Ordered [] where
  mem_names _ := Iff.rfl
  ascending := List.Pairwise.nil
  value n v := by simp [get?, empty, LastSet]

namespace Ordered

variable {r : Row} {settings : List (String × Value)}

theorem contains (h : r.Ordered settings) (n : String) :
    r.contains n ↔ n ∈ settings.map (·.1) := by
  rw [contains_iff, h.mem_names]

theorem get?_eq_none (h : r.Ordered settings) (n : String) :
    r.get? n = none ↔ n ∉ settings.map (·.1) := by
  rw [get?_eq_none_iff, h.mem_names]

/-- There are as many cells as names that were set. -/
theorem size (h : r.Ordered settings) : r.size = (settings.map (·.1)).toFinset.card := by
  have hnames : (settings.map (·.1)).toFinset = r.names.toFinset := by
    ext n
    rw [List.mem_toFinset, List.mem_toFinset, h.mem_names]
  rw [hnames, List.toFinset_card_of_nodup r.nodup_names, names, List.length_map, Row.size]

/-- **One more setting.**  A new name is set behind all others, and a name that is there keeps its
first time. -/
theorem set (h : r.Ordered settings) (name : String) (value : Value) :
    (r.set name value).Ordered (settings ++ [(name, value)]) where
  mem_names n := by
    rw [names_set, List.map_append, List.mem_append, ← h.mem_names]
    split
    case isTrue hm =>
        refine ⟨.inl, fun hn => hn.elim id fun hn => ?_⟩
        rwa [List.mem_singleton.mp hn]
    case isFalse => exact List.mem_append
  ascending := by
    have hold : r.names.Pairwise fun m n => firstSet (settings ++ [(name, value)]) m <
        firstSet (settings ++ [(name, value)]) n := by
      refine h.ascending.imp_of_mem fun hm hn hlt => ?_
      rwa [firstSet_append_of_mem ((h.mem_names _).mp hm),
        firstSet_append_of_mem ((h.mem_names _).mp hn)]
    rw [names_set]
    split
    case isTrue => exact hold
    case isFalse hnew =>
        refine List.pairwise_append.mpr ⟨hold, List.pairwise_singleton _ _, fun m hm n hn => ?_⟩
        obtain rfl := List.mem_singleton.mp hn
        have hset := (h.mem_names m).mp hm
        rw [firstSet_append_of_mem hset]
        exact firstSet_lt_append hset ((h.mem_names n).not.mp hnew)
  value n v := by
    rw [get?_set, lastSet_append]
    split
    case isTrue => rw [Option.some.injEq, eq_comm]
    case isFalse => exact h.value n v

end Ordered

/-! ### Rows that are made -/

theorem Made.ordered {settings : List (String × Value)} {r : Row} (h : Made settings r) :
    r.Ordered settings := by
  induction h with
  | empty => exact ordered_empty
  | set h name value ih => exact ih.set name value

theorem made_ofList (pairs : List (String × Value)) : Made pairs (ofList pairs) := by
  induction pairs using List.reverseRecOn with
  | nil => exact .empty
  | append_singleton pairs p ih => exact ofList_append pairs p ▸ ih.set p.1 p.2

theorem Made.eq_ofList {settings : List (String × Value)} {r : Row} (h : Made settings r) :
    r = ofList settings := by
  induction h with
  | empty => rfl
  | set h name value ih => rw [ofList_append, ← ih]

/-! ### One setting -/

/-- One row is the other with the value under the name: where the name stands, or at the end if it
stands nowhere. -/
structure Sets (r : Row) (name : String) (value : Value) (r' : Row) : Prop where
  names : r'.names = if name ∈ r.names then r.names else r.names ++ [name]
  /-- The name has one cell, and this has the value. -/
  own : ∀ (i : Nat) (v : Value), r'.cells[i]? = some (name, v) ↔
    v = value ∧ (r.names[i]? = some name ∨ name ∉ r.names ∧ i = r.size)
  /-- No other cell changes or moves, and none comes or goes. -/
  others : ∀ (i : Nat) (n : String) (v : Value), n ≠ name →
    (r'.cells[i]? = some (n, v) ↔ r.cells[i]? = some (n, v))

theorem sets_set (r : Row) (name : String) (value : Value) :
    r.Sets name value (r.set name value) where
  names := names_set r name value
  own i v := by
    have hsize : r.size = r.names.length := (List.length_map _).symm
    rw [getElem?_cells_iff, names_set, getElem?_add, hsize, get?_set,
      if_pos rfl, Option.some.injEq, and_comm, eq_comm]
  others i n v hn := getElem?_upsert_of_ne hn r.cells i

/-! ### Ordered maps -/

/-- **A row is an ordered map of what was set.**  Its names are different and stand in the order in
which each was first set; a name has the value to which it was last set, and none if it was not set;
there are as many cells as names that were set, and each is a name with its value.  Setting a name
changes no other cell, and no place.  Pairs, and the members of an object, are set one after the
other. -/
theorem made_in_order :
    (∀ settings r, Made settings r ↔ r = ofList settings) ∧
      (∀ members, Made (members.map fun m => (m.1, Value.ofJson m.2)) (ofMembers members)) ∧
      ∀ settings r, Made settings r →
        r.names.Nodup ∧ r.Ordered settings ∧
          (∀ n, (r.get? n = none ↔ n ∉ settings.map (·.1)) ∧
            (r.contains n ↔ n ∈ settings.map (·.1))) ∧
          (∀ (i : Nat) n v, r.cells[i]? = some (n, v) ↔ r.names[i]? = some n ∧ r.get? n = some v) ∧
          r.size = (settings.map (·.1)).toFinset.card ∧
          ∀ name value, r.Sets name value (r.set name value) := by
  refine ⟨fun settings r => ⟨Made.eq_ofList, ?_⟩, fun members => made_ofList _,
    fun settings r h => ?_⟩
  · rintro rfl
    exact made_ofList settings
  · have ho := h.ordered
    exact ⟨r.nodup_names, ho, fun n => ⟨ho.get?_eq_none n, ho.contains n⟩,
      fun i n v => getElem?_cells_iff, ho.size, r.sets_set⟩

/-- A book, with its title set once more. -/
def corrected : Row :=
  ((empty.set "title" (.string "Draft")).set "pages" (.int64 120)).set "title" (.string "Rivers")

/-- The new title stands where the old one did, and other pages change nothing else.  The same row
is made from the members of an object. -/
theorem made_in_order_corrected :
    corrected.names.Nodup ∧ corrected.names = ["title", "pages"] ∧ corrected.size = 2 ∧
      corrected.get? "title" = some (.string "Rivers") ∧ corrected.get? "author" = none ∧
      (corrected.set "pages" (.int64 144)).cells[0]? = some ("title", .string "Rivers") ∧
      ofMembers [("title", .string "Rivers"), ("pages", .number (.integer 120))] = corrected := by
  have hmade : Made [("title", .string "Draft"), ("pages", .int64 120), ("title", .string "Rivers")]
      corrected := ((Made.empty.set "title" _).set "pages" _).set "title" _
  obtain ⟨-, -, hrow⟩ := made_in_order
  obtain ⟨hnodup, hordered, hnames, hcells, hsize, hsets⟩ := hrow _ _ hmade
  have htitle : corrected.get? "title" = some (.string "Rivers") :=
    (hordered.value _ _).mpr ⟨[("title", .string "Draft"), ("pages", .int64 120)], [], rfl, by simp⟩
  refine ⟨hnodup, by decide, hsize.trans (by decide), htitle, (hnames "author").1.mpr (by decide),
    ?_, rfl⟩
  rw [(hsets "pages" _).others 0 "title" _ (by decide), hcells]
  exact ⟨rfl, htitle⟩

end RowGraph.Row
