import RowGraph.Json.Basic
import RowGraph.Proofs.Upsert

/-!
# Proofs — objects made of members

An object is made by putting its members into it one after the other: a new name goes to the end,
and a name that is there keeps its place.  So members with different names become the object as they
are (`Json.ofMembers_of_nodup`).
-/

namespace RowGraph.Json

/-- Members with different names become the object as they are. -/
theorem ofMembers_of_nodup {members : List (String × Json)} (h : (members.map (·.1)).Nodup) :
    ofMembers members = .object members :=
  congrArg object (foldl_upsert_of_nodup [] h)

theorem texts_eq_map (js : List Json) : texts js = js.map text := by
  induction js with
  | nil => rfl
  | cons j js ih => rw [texts, ih, List.map_cons]

theorem memberTexts_eq_map (members : List (String × Json)) :
    memberTexts members = members.map fun m => member m.1 m.2.text := by
  induction members with
  | nil => rfl
  | cons m members ih => rw [memberTexts, ih, List.map_cons]

/-- An object with different names is written member by member. -/
theorem text_ofMembers_map {α : Type} {fields : List (String × α)} {document : α → Json}
    {write : α → String} (hn : (fields.map (·.1)).Nodup)
    (h : ∀ f ∈ fields, (document f.2).text = write f.2) :
    (ofMembers (fields.map fun f => (f.1, document f.2))).text =
      brace (fields.map fun f => member f.1 (write f.2)) := by
  have hnames : ((fields.map fun f => (f.1, document f.2)).map (·.1)).Nodup := by
    rw [List.map_map]
    exact hn
  rw [ofMembers_of_nodup hnames, text, memberTexts_eq_map, List.map_map]
  refine congrArg brace (List.map_congr_left fun f hf => ?_)
  rw [Function.comp_apply, h f hf]

end RowGraph.Json
