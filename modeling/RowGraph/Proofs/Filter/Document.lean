import RowGraph.Filter.Compile
import RowGraph.Proofs.Value.Json

/-!
# Proofs — Filter — filters as documents

A filter can be put together call by call (`Filter.Built`) or read from a document.  The document of
a filter has a member for each entry: scalars are written by their values, lists as arrays, and
operators and filters as objects.  An object has each name once, so a key that an object of the
filter has twice would be lost.

**A filter that is put together from plain values is what its document describes**
(`Filter.ofJson_document`), if none of its objects has a key twice.
-/

namespace RowGraph.Filter

/-! ### Documents -/

mutual

/-- The document of a node. -/
def Node.document : Node → Json
  | .scalar v => v.toJson
  | .list items => .array (documents items)
  | .object entries => .ofMembers (members entries)

def Node.documents : List Node → List Json
  | [] => []
  | item :: rest => item.document :: documents rest

def Node.members : List (String × Node) → List (String × Json)
  | [] => []
  | (key, node) :: rest => (key, node.document) :: members rest

end

/-- The document of a filter. -/
def document (f : Filter) : Json := (Node.object f).document

mutual

/-- The objects in a node, each before those in it. -/
def Node.objects : Node → List Filter
  | .scalar _ => []
  | .list items => objectsOf items
  | .object entries => entries :: objectsIn entries

def Node.objectsOf : List Node → List Filter
  | [] => []
  | item :: rest => item.objects ++ objectsOf rest

def Node.objectsIn : List (String × Node) → List Filter
  | [] => []
  | (_, node) :: rest => node.objects ++ objectsIn rest

end

/-- Neither the filter nor an object in it has a key twice. -/
def Distinct (f : Filter) : Prop := ∀ g ∈ (Node.object f).objects, (g.map (·.1)).Nodup

instance (f : Filter) : Decidable f.Distinct :=
  inferInstanceAs (Decidable (∀ g ∈ (Node.object f).objects, (g.map (·.1)).Nodup))

/-- The filters that calls of the builder lead to, with plain values. -/
inductive Built : Filter → Prop where
  | empty : Built []
  | eq {f : Filter} (h : Built f) (column : String) {v : Value} (hv : v.Plain) :
      Built (f.eq column v)
  | op {f : Filter} (h : Built f) (column : String) (o : Operator) {v : Value} (hv : v.Plain) :
      Built (f.op column o v)
  | anyOf {f : Filter} (h : Built f) (column : String) {vs : List Value}
      (hvs : ∀ v ∈ vs, v.Plain) : Built (f.anyOf column vs)
  | and {f : Filter} (h : Built f) {children : List Filter} (hc : ∀ c ∈ children, Built c) :
      Built (f.and children)
  | or {f : Filter} (h : Built f) {children : List Filter} (hc : ∀ c ∈ children, Built c) :
      Built (f.or children)

/-! ### Item by item -/

namespace Node

theorem documents_eq_map (items : List Node) : documents items = items.map document := by
  induction items with
  | nil => rfl
  | cons item items ih => rw [documents, ih, List.map_cons]

theorem members_eq_map (entries : List (String × Node)) :
    members entries = entries.map fun e => (e.1, e.2.document) := by
  induction entries with
  | nil => rfl
  | cons e entries ih => rw [members, ih, List.map_cons]

theorem objectsOf_eq_flatMap (items : List Node) : objectsOf items = items.flatMap objects := by
  induction items with
  | nil => rfl
  | cons item items ih => rw [objectsOf, ih, List.flatMap_cons]

theorem objectsIn_eq_flatMap (entries : List (String × Node)) :
    objectsIn entries = entries.flatMap fun e => e.2.objects := by
  induction entries with
  | nil => rfl
  | cons e entries ih => rw [objectsIn, ih, List.flatMap_cons]

theorem ofJsons_eq_map (js : List Json) : ofJsons js = js.map ofJson := by
  induction js with
  | nil => rfl
  | cons j js ih => rw [ofJsons, ih, List.map_cons]

theorem ofMembers_eq_map (members : List (String × Json)) :
    ofMembers members = members.map fun m => (m.1, ofJson m.2) := by
  induction members with
  | nil => rfl
  | cons m members ih => rw [ofMembers, ih, List.map_cons]

/-! ### Nodes -/

/-- The node is read back from its document. -/
def Described (n : Node) : Prop := ofJson n.document = n

theorem described_list {items : List Node} (h : ∀ item ∈ items, item.Described) :
    (list items).Described := by
  rw [Described, document, ofJson, documents_eq_map, ofJsons_eq_map, List.map_map]
  exact congrArg list ((List.map_congr_left h).trans (List.map_id items))

/-- An object is described if its nodes are and no key stands in it twice. -/
theorem described_object {entries : List (String × Node)} (hn : (entries.map (·.1)).Nodup)
    (h : ∀ e ∈ entries, e.2.Described) : (object entries).Described := by
  have hnames : ((members entries).map (·.1)).Nodup := by
    rw [members_eq_map, List.map_map]
    exact hn
  have hread : ofMembers (members entries) = entries := by
    rw [ofMembers_eq_map, members_eq_map, List.map_map]
    refine (List.map_congr_left fun e he => ?_).trans (List.map_id entries)
    exact Prod.ext rfl (h e he)
  rw [Described, document, Json.ofMembers_of_nodup hnames, ofJson, hread]

mutual

/-- A value's node has the document of the value. -/
theorem document_ofValue : ∀ v : Value, (ofValue v).document = v.toJson
  | .array items => by rw [ofValue, document, documents_ofValues items, Value.toJson]
  | .null | .bool _ | .int64 _ | .float64 _ | .string _ | .bytes _ => rfl

theorem documents_ofValues : ∀ vs : List Value, documents (ofValues vs) = Value.toJsons vs
  | [] => rfl
  | v :: vs => by
      rw [ofValues, documents, document_ofValue v, documents_ofValues vs, Value.toJsons]

end

mutual

/-- The document of a plain value is read as the value's node. -/
theorem ofJson_toJson : ∀ {v : Value}, v.Plain → ofJson v.toJson = ofValue v
  | .array items, h => by rw [Value.toJson, ofJson, ofJsons_toJsons h, ofValue]
  | .null, _ | .bool _, _ | .string _, _ => rfl
  | .int64 i, h => congrArg scalar (Value.ofJson_toJson_iff.mpr h)
  | .float64 x, h => by
      have hx : x.isFinite := (h (.float64 x) List.mem_cons_self).2 x rfl
      rw [Value.toJson, if_pos hx]
      rfl
  | .bytes bs, h => absurd rfl ((h (.bytes bs) List.mem_cons_self).1 bs)

theorem ofJsons_toJsons : ∀ {vs : List Value}, (Value.array vs).Plain →
    ofJsons (Value.toJsons vs) = ofValues vs
  | [], _ => rfl
  | v :: vs, h => by
      obtain ⟨hv, hvs⟩ := Value.plain_array_cons.mp h
      rw [Value.toJsons, ofJsons, ofJson_toJson hv, ofJsons_toJsons hvs, ofValues]

end

theorem described_ofValue {v : Value} (h : v.Plain) : (ofValue v).Described := by
  rw [Described, document_ofValue, ofJson_toJson h]

end Node

/-! ### Filters -/

/-- An entry at the end adds the objects of its node. -/
theorem Distinct.of_insert {f : Filter} {key : String} {node : Node}
    (h : (f.insert key node).Distinct) :
    f.Distinct ∧ ∀ g ∈ node.objects, (g.map (·.1)).Nodup := by
  have hf : (f.map (·.1)).Nodup := by
    have hself := h _ List.mem_cons_self
    rw [insert, List.map_append] at hself
    exact hself.of_append_left
  have hobjects : ∀ g ∈ Node.objectsIn f ++ node.objects, (g.map (·.1)).Nodup := by
    intro g hg
    refine h g (List.mem_cons_of_mem _ ?_)
    simpa [insert, Node.objectsIn_eq_flatMap] using hg
  obtain ⟨hin, hnode⟩ := List.forall_mem_append.mp hobjects
  exact ⟨List.forall_mem_cons.mpr ⟨hf, hin⟩, hnode⟩

theorem described_insert {f : Filter} {key : String} {node : Node}
    (hf : ∀ e ∈ f, e.2.Described) (hn : node.Described) : ∀ e ∈ f.insert key node, e.2.Described :=
  List.forall_mem_append.mpr ⟨hf, List.forall_mem_singleton.mpr hn⟩

/-- The children of a combinator are objects of the filter, each with entries of its own. -/
theorem described_children {children : List Filter}
    (h : ∀ c ∈ children, Distinct c → ∀ e ∈ c, e.2.Described)
    (hd : ∀ g ∈ (Node.list (children.map .object)).objects, (g.map (·.1)).Nodup) :
    (Node.list (children.map .object)).Described := by
  refine Node.described_list (List.forall_mem_map.mpr fun c hc => ?_)
  have hdc : Distinct c := by
    intro g hg
    refine hd g ?_
    rw [Node.objects, Node.objectsOf_eq_flatMap, List.flatMap_map]
    exact List.mem_flatMap.mpr ⟨c, hc, hg⟩
  exact Node.described_object (hdc c List.mem_cons_self) (h c hc hdc)

/-- The entries of a filter that is put together are read back one by one. -/
theorem Built.described {f : Filter} (h : f.Built) (hd : f.Distinct) :
    ∀ e ∈ f, e.2.Described := by
  induction h with
  | empty => exact fun _ he => absurd he List.not_mem_nil
  | eq h column hv ih =>
      exact described_insert (ih hd.of_insert.1) (Node.described_ofValue hv)
  | op h column o hv ih =>
      have hoperand := Node.described_ofValue hv
      exact described_insert (ih hd.of_insert.1) (Node.described_object
        (List.nodup_singleton o.key) (List.forall_mem_singleton.mpr hoperand))
  | anyOf h column hvs ih =>
      have hitems := List.forall_mem_map.mpr fun v hv => Node.described_ofValue (hvs v hv)
      exact described_insert (ih hd.of_insert.1) (Node.described_list hitems)
  | and h hc ih ihc | or h hc ih ihc =>
      exact described_insert (ih hd.of_insert.1) (described_children ihc hd.of_insert.2)

/-- **A filter that is put together from plain values is what its document describes**, entry by
entry, if none of its objects has a key twice.  So both compile alike, or fail alike. -/
theorem ofJson_document {f : Filter} (h : f.Built) (hd : f.Distinct) :
    ofJson f.document = .ok f ∧
      ∀ q n, (ofJson f.document).map (·.compile q n) = .ok (f.compile q n) := by
  have hf : (Node.object f).Described :=
    Node.described_object (hd f List.mem_cons_self) (h.described hd)
  have hread : ofJson f.document = .ok f := by
    rw [ofJson, document, hf]
  refine ⟨hread, fun q n => ?_⟩
  rw [hread]
  rfl

/-- A title, and beside it either authors and a rank or a score. -/
def nested : Filter :=
  (eq [] "title" (.string "[1]")).or
    [(anyOf [] "author" [.int64 7, .array [.null]]).op "rank" .isNot .null,
      and [] [op [] "score" .gt (.float64 ⟨0x8000000000000000⟩)]]

theorem built_nested : nested.Built := by
  have hfloat : (Value.float64 ⟨0x8000000000000000⟩).Plain :=
    Value.ofJson_toJson_iff.mp rfl
  have hvalues : ∀ v ∈ [Value.int64 7, .array [.null]], v.Plain :=
    Value.plain_array_iff.mp (Value.ofJson_toJson_iff.mp rfl)
  refine .or (.eq .empty _ (Value.ofJson_toJson_iff.mp rfl)) ?_
  refine List.forall_mem_cons.mpr ⟨?_, List.forall_mem_singleton.mpr ?_⟩
  · exact .op (.anyOf .empty _ hvalues) _ _ (Value.ofJson_toJson_iff.mp rfl)
  · exact .and .empty (List.forall_mem_singleton.mpr (.op .empty _ _ hfloat))

theorem ofJson_document_nested :
    nested.Built ∧ nested.Distinct ∧ ofJson nested.document = .ok nested := by
  have hdistinct : nested.Distinct := by decide
  exact ⟨built_nested, hdistinct, (ofJson_document built_nested hdistinct).1⟩

/-- Of a key that stands twice the document has the last. -/
example : ofJson (document [("title", .scalar .null), ("title", .scalar (.bool true))]) =
    .ok [("title", .scalar (.bool true))] := rfl

end RowGraph.Filter
