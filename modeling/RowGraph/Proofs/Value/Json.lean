import RowGraph.Proofs.Json
import RowGraph.Value.Json

/-!
# Proofs — Value — values as documents

A document has arrays where a value has them, and what the two hold in the end are their leaves.
Bytes, and floats that are not finite, have no document of their own; an object, and an integer
beyond 64 signed bits, is not a value of its own.  Nothing else is lost (`Value.survives_json`):
**a value is read back from its document exactly if it is plain**, and **a document is that of the
value read from it exactly if it is plain**.

The text of a value's document is the text that is written straight away (`Value.text_toJson`).
-/

namespace RowGraph

/-! ### The text of a document -/

namespace Value

theorem text_byteNumber (b : UInt8) : (byteNumber b).text = toString b.toNat := rfl

mutual

/-- A value's document is written as the value itself is. -/
theorem text_toJson : ∀ v : Value, v.toJson.text = v.serialize
  | .null | .bool _ | .int64 _ | .string _ => rfl
  | .float64 x => by
      rw [toJson, serialize]
      cases hx : x.isFinite with
      | true => rfl
      | false => simp [Json.text, Json.floatText, hx]
  | .bytes bs => by
      rw [toJson, Json.text, Json.texts_eq_map, List.map_map, serialize]
      exact congrArg Json.bracket (List.map_congr_left fun b _ => text_byteNumber b)
  | .array items => by rw [toJson, Json.text, texts_toJsons items, serialize]

theorem texts_toJsons : ∀ vs : List Value, Json.texts (toJsons vs) = serializes vs
  | [] => rfl
  | v :: vs => by rw [toJsons, Json.texts, text_toJson v, texts_toJsons vs, serializes]

end

end Value

/-! ### Leaves -/

mutual

/-- What a value holds, left to right: a scalar itself, and an array what its items hold. -/
def Value.leaves : Value → List Value
  | .array items => leavesOf items
  | v => [v]

def Value.leavesOf : List Value → List Value
  | [] => []
  | v :: vs => v.leaves ++ leavesOf vs

end

mutual

/-- What a document holds, left to right; an object is held as a whole. -/
def Json.leaves : Json → List Json
  | .array items => leavesOf items
  | j => [j]

def Json.leavesOf : List Json → List Json
  | [] => []
  | j :: js => j.leaves ++ leavesOf js

end

/-- It holds neither bytes nor a float that is not finite. -/
def Value.Plain (v : Value) : Prop :=
  ∀ l ∈ v.leaves, (∀ bs, l ≠ .bytes bs) ∧ ∀ x, l = .float64 x → x.isFinite

/-- It holds no object, its integers have 64 signed bits and its other numbers are finite. -/
def Json.Plain (j : Json) : Prop :=
  ∀ l ∈ j.leaves, (∀ members, l ≠ .object members) ∧
    (∀ i, l = .number (.integer i) → Int64.minValue.toInt ≤ i ∧ i ≤ Int64.maxValue.toInt) ∧
    ∀ x, l = .number (.float x) → x.isFinite

/-! ### From values to documents and back -/

namespace Value

theorem plain_array_nil : (array []).Plain :=
  fun _ hl => absurd hl List.not_mem_nil

theorem plain_array_cons {v : Value} {vs : List Value} :
    (array (v :: vs)).Plain ↔ v.Plain ∧ (array vs).Plain :=
  List.forall_mem_append

theorem plain_array_iff {vs : List Value} : (array vs).Plain ↔ ∀ v ∈ vs, v.Plain := by
  induction vs with
  | nil => simp [plain_array_nil]
  | cons v vs ih => rw [plain_array_cons, ih, List.forall_mem_cons]

/-- Only an integer of 64 signed bits is read as one, and as no other. -/
theorem ofNumber_eq_int64_iff {n : Json.Number} {i : Int64} :
    ofNumber n = .int64 i ↔ n = .integer i.toInt := by
  constructor
  · intro h
    cases n with
    | float x => cases h
    | integer k =>
        rw [ofNumber] at h
        split at h
        case isTrue hk =>
            cases h
            rw [Int64.toInt_ofInt_of_le hk.1 (Int.lt_add_one_iff.mpr hk.2)]
        case isFalse => cases h
  · rintro rfl
    rw [ofNumber, if_pos ⟨i.minValue_le_toInt, i.toInt_le⟩, Int64.ofInt_toInt]

mutual

theorem ofJson_toJson_iff : ∀ {v : Value}, ofJson v.toJson = v ↔ v.Plain
  | .array items => by
      rw [← ofJsons_toJsons_iff]
      simp [toJson, ofJson]
  | .null | .bool _ | .string _ | .bytes _ => by simp [Plain, leaves, toJson, ofJson]
  | .int64 i => by simp [Plain, leaves, toJson, ofJson, ofNumber_eq_int64_iff]
  | .float64 x => by
      cases hx : x.isFinite <;> simp [Plain, leaves, toJson, ofJson, ofNumber, hx]

theorem ofJsons_toJsons_iff : ∀ {vs : List Value}, ofJsons (toJsons vs) = vs ↔ (array vs).Plain
  | [] => by simp [toJsons, ofJsons, plain_array_nil]
  | v :: vs => by
      rw [plain_array_cons, ← ofJson_toJson_iff, ← ofJsons_toJsons_iff]
      simp [toJsons, ofJsons]

end

end Value

/-! ### From documents to values and back -/

namespace Json

open Value

theorem plain_array_nil : (array []).Plain :=
  fun _ hl => absurd hl List.not_mem_nil

theorem plain_array_cons {j : Json} {js : List Json} :
    (array (j :: js)).Plain ↔ j.Plain ∧ (array js).Plain :=
  List.forall_mem_append

/-- A number is kept as it is if it is an integer of 64 signed bits or a finite float. -/
theorem toJson_ofNumber_iff {n : Number} : (ofNumber n).toJson = .number n ↔ (number n).Plain := by
  cases n with
  | float x => cases hx : x.isFinite <;> simp [Plain, leaves, toJson, ofNumber, hx]
  | integer i =>
      have hplain : (number (.integer i)).Plain ↔
          Int64.minValue.toInt ≤ i ∧ i ≤ Int64.maxValue.toInt := by simp [Plain, leaves]
      rw [hplain, ofNumber]
      split
      case isTrue hi =>
          rw [toJson, Int64.toInt_ofInt_of_le hi.1 (Int.lt_add_one_iff.mpr hi.2)]
          exact iff_of_true rfl hi
      case isFalse hi =>
          refine iff_of_false ?_ hi
          rw [toJson]
          split <;> simp

mutual

theorem toJson_ofJson_iff : ∀ {j : Json}, (ofJson j).toJson = j ↔ j.Plain
  | .array items => by
      rw [← toJsons_ofJsons_iff]
      simp [toJson, ofJson]
  | .null | .bool _ | .string _ | .object _ => by simp [Plain, leaves, toJson, ofJson]
  | .number n => by rw [ofJson, toJson_ofNumber_iff]

theorem toJsons_ofJsons_iff : ∀ {js : List Json}, toJsons (ofJsons js) = js ↔ (array js).Plain
  | [] => by simp [toJsons, ofJsons, plain_array_nil]
  | j :: js => by
      rw [plain_array_cons, ← toJson_ofJson_iff, ← toJsons_ofJsons_iff]
      simp [toJsons, ofJsons]

end

end Json

/-! ### What survives -/

namespace Value

/-- The number of a numeral beyond 64 signed bits is read as a float. -/
theorem ofJson_number_ofInt {i : Int} (hi : Int64.maxValue.toInt < i) :
    ofJson (.number (.ofInt i)) = .float64 (.ofInt i) := by
  rw [Json.Number.ofInt, ofJson]
  split
  case isTrue => rw [ofNumber, if_neg fun h => absurd h.2 (Int.not_le.mpr hi)]
  case isFalse => rfl

/-- **A value is read back from its document exactly if it is plain**, and **a document is that of
the value read from it exactly if it is plain**.  A number is read as an integer only if it is this
integer; one beyond 64 signed bits is read as a float. -/
theorem survives_json :
    (∀ v : Value, ofJson v.toJson = v ↔ v.Plain) ∧
      (∀ j : Json, (ofJson j).toJson = j ↔ j.Plain) ∧
      (∀ n i, ofJson (.number n) = .int64 i ↔ n = .integer i.toInt) ∧
      ∀ i : Int, Int64.maxValue.toInt < i → ofJson (.number (.ofInt i)) = .float64 (.ofInt i) :=
  ⟨fun _ => ofJson_toJson_iff, fun _ => Json.toJson_ofJson_iff, fun _ _ => ofNumber_eq_int64_iff,
    fun _ => ofJson_number_ofInt⟩

/-- The least integer, a negative zero, the float one and a string that looks like an array. -/
def mixed : Value :=
  .array [.int64 Int64.minValue, .array [.float64 ⟨0x8000000000000000⟩, .array [], .null],
    .float64 ⟨0x3ff0000000000000⟩, .string "[1]"]

/-- They survive.  Bytes and objects do not, and the integer after the greatest becomes a float. -/
theorem survives_json_mixed :
    ofJson mixed.toJson = mixed ∧ (ofJson mixed.toJson).toJson = mixed.toJson ∧
      ofJson (array [mixed, .bytes []]).toJson ≠ array [mixed, .bytes []] ∧
      (ofJson (.array [.null, .object []])).toJson ≠ .array [.null, .object []] ∧
      ofJson (.number (.integer 9223372036854775808)) = .float64 (.ofInt 9223372036854775808) := by
  obtain ⟨hvalue, hdocument, -, hbeyond⟩ := survives_json
  have hzero : (⟨0x8000000000000000⟩ : Binary64).isFinite := rfl
  have hone : (⟨0x3ff0000000000000⟩ : Binary64).isFinite := rfl
  have hplain : mixed.Plain := by simp [Plain, mixed, leaves, leavesOf, hzero, hone]
  have hmixed := (hvalue mixed).mpr hplain
  refine ⟨hmixed, by rw [hmixed], fun h => ?_, fun h => ?_,
    hbeyond 9223372036854775808 (by decide)⟩
  · exact (((hvalue _).mp h) (.bytes []) (by simp [leaves, leavesOf])).1 [] rfl
  · exact (((hdocument _).mp h) (.object []) (by simp [Json.leaves, Json.leavesOf])).1 [] rfl

end Value

end RowGraph
