import Mathlib.Data.List.Pairwise
import RowGraph.Proofs.Find.Tables
import RowGraph.Proofs.Row
import RowGraph.Record.Fold

/-!
# Proofs — Find — labels

A cell of a flat row is labelled with its table's alias, an underscore and its column.  Aliases
and columns may have underscores themselves, so the label does not say where the one ends and the
other begins: two labels agree if table and column do, or if one alias goes on, behind an
underscore, with the beginning of the other's column (`label_eq_label_iff`).

Nothing keeps that from happening (`labels_not_always_distinct`).  **The labels of a find are
different exactly if no alias goes on with the beginning of a column**
(`labels_distinct_iff`), and then every table is read back from its own cells.
-/

namespace RowGraph

/-! ### Labels of two columns -/

theorem append_cons_eq_append_cons {α : Type} {u : α} {a b c d : List α}
    (h : a ++ u :: c = b ++ u :: d) :
    (a = b ∧ c = d) ∨ (∃ x, b = a ++ u :: x ∧ c = x ++ u :: d) ∨
      ∃ x, a = b ++ u :: x ∧ d = x ++ u :: c := by
  rcases List.append_eq_append_iff.mp h with ⟨e, hb, hc⟩ | ⟨e, ha, hd⟩
  · rcases e with _ | ⟨v, x⟩
    · rw [List.append_nil] at hb
      obtain ⟨-, hcd⟩ := List.cons.inj hc
      exact .inl ⟨hb.symm, hcd⟩
    · obtain ⟨rfl, hcd⟩ := List.cons.inj hc
      exact .inr (.inl ⟨x, hb, hcd⟩)
  · rcases e with _ | ⟨v, x⟩
    · rw [List.append_nil] at ha
      obtain ⟨-, hcd⟩ := List.cons.inj hd
      exact .inl ⟨ha, hcd.symm⟩
    · obtain ⟨rfl, hcd⟩ := List.cons.inj hd
      exact .inr (.inr ⟨x, ha, hcd⟩)

theorem toList_label (a c : String) : (a ++ "_" ++ c).toList = a.toList ++ '_' :: c.toList := by
  have hu : "_".toList = ['_'] := by decide
  rw [String.toList_append, String.toList_append, hu, List.append_assoc, List.singleton_append]

/-- Two labels agree if alias and column do, or if one alias goes on with the beginning of the
other's column. -/
theorem label_eq_label_iff {a b c d : String} :
    a ++ "_" ++ c = b ++ "_" ++ d ↔
      (a = b ∧ c = d) ∨ (∃ x, b = a ++ "_" ++ x ∧ c = x ++ "_" ++ d) ∨
        ∃ x, a = b ++ "_" ++ x ∧ d = x ++ "_" ++ c := by
  have split : ∀ {s t : String} {x : List Char}, s.toList = t.toList ++ '_' :: x →
      s = t ++ "_" ++ String.ofList x := by
    intro s t x h
    rw [← String.toList_inj, toList_label, String.toList_ofList, h]
  have rest : ∀ {s t : String} {x : List Char}, s.toList = x ++ '_' :: t.toList →
      s = String.ofList x ++ "_" ++ t := by
    intro s t x h
    rw [← String.toList_inj, toList_label, String.toList_ofList, h]
  constructor
  · intro h
    have hl := congrArg String.toList h
    rw [toList_label, toList_label] at hl
    rcases append_cons_eq_append_cons hl with ⟨ha, hc⟩ | ⟨x, hb, hc⟩ | ⟨x, ha, hd⟩
    · exact .inl ⟨String.toList_inj.mp ha, String.toList_inj.mp hc⟩
    · exact .inr (.inl ⟨.ofList x, split hb, rest hc⟩)
    · exact .inr (.inr ⟨.ofList x, split ha, rest hd⟩)
  · rintro (⟨rfl, rfl⟩ | ⟨x, rfl, rfl⟩ | ⟨x, rfl, rfl⟩)
    · rfl
    · simp only [String.append_assoc]
    · simp only [String.append_assoc]

theorem ne_extension (a x : String) : a ≠ a ++ "_" ++ x := by
  intro h
  have hl := congrArg (fun s : String => s.toList.length) h
  simp only [toList_label, List.length_append, List.length_cons] at hl
  omega

/-! ### Labels of a find -/

namespace Shape

/-- The labels of the cells of a flat row. -/
def labels (s : Shape) : List String := s.tables.flatMap fun t => t.columns.map t.label

/-- The flat row of the cells of the tables, each named by its table's alias and its column. -/
def flatRow (s : Shape) (cells : String → String → Value) : Row :=
  .ofList (s.tables.flatMap fun t => t.columns.map fun c => (t.label c, cells t.aliasName c))

/-- The alias of one table is that of another and goes on with the beginning of a column of the
latter, the rest of which is a column of the former. -/
def Overlapping (s : Shape) : Prop :=
  ∃ t ∈ s.tables, ∃ u ∈ s.tables, ∃ x c : String,
    u.aliasName = t.aliasName ++ "_" ++ x ∧ x ++ "_" ++ c ∈ t.columns ∧ c ∈ u.columns

/-- The labels are different if no two tables overlap. -/
theorem nodup_labels_iff {s : Shape} (hk : ∀ t ∈ s.tables, t.Keyed)
    (ha : (s.tables.map (·.aliasName)).Nodup) : s.labels.Nodup ↔ ¬ s.Overlapping := by
  constructor
  · rintro hn ⟨t, ht, u, hu, x, c, hal, hct, hcu⟩
    have hne : t ≠ u := by
      rintro rfl
      exact ne_extension _ _ hal
    have : Std.Symm (Function.onFun List.Disjoint fun t : TableShape => t.columns.map t.label) :=
      ⟨fun _ _ h _ hl hl' => h hl' hl⟩
    -- the long column of the one and the short one of the other have one label
    have hd := (List.nodup_flatMap.mp hn).2.forall ht hu hne
    have hl : t.label (x ++ "_" ++ c) = u.label c :=
      label_eq_label_iff.mpr (.inr (.inl ⟨x, hal, rfl⟩))
    exact hd (List.mem_map_of_mem hct) (hl ▸ List.mem_map_of_mem hcu)
  · intro ho
    refine List.nodup_flatMap.mpr ⟨fun t ht => ?_, ?_⟩
    · refine (hk t ht).nodup.map fun c d h => ?_
      rcases label_eq_label_iff.mp h with ⟨-, rfl⟩ | ⟨x, hx, -⟩ | ⟨x, hx, -⟩
      · rfl
      · exact absurd hx (ne_extension _ _)
      · exact absurd hx (ne_extension _ _)
    · refine (List.pairwise_map.mp ha).imp_of_mem fun {t u} ht hu hne => ?_
      intro l hlt hlu
      obtain ⟨c, hc, rfl⟩ := List.mem_map.mp hlt
      obtain ⟨d, hd, hl⟩ := List.mem_map.mp hlu
      rcases label_eq_label_iff.mp hl with ⟨hal, -⟩ | ⟨x, hal, rfl⟩ | ⟨x, hal, rfl⟩
      · exact hne hal.symm
      · exact ho ⟨u, hu, t, ht, x, c, hal, hd, hc⟩
      · exact ho ⟨t, ht, u, hu, x, d, hal, hc, hd⟩

/-- Where labels are different, every column is read back from its own cell. -/
theorem get_flatRow {s : Shape} (hn : s.labels.Nodup) (cells : String → String → Value)
    {t : TableShape} (ht : t ∈ s.tables) {c : String} (hc : c ∈ t.columns) :
    (s.flatRow cells).get (t.label c) = cells t.aliasName c := by
  have hl : ((s.tables.flatMap fun t => t.columns.map fun c =>
      (t.label c, cells t.aliasName c)).map (·.1)).Nodup := by
    rw [List.map_flatMap]
    simp only [List.map_map, Function.comp_def]
    exact hn
  have hm : (t.label c, cells t.aliasName c) ∈ s.tables.flatMap fun t => t.columns.map fun c =>
      (t.label c, cells t.aliasName c) :=
    List.mem_flatMap.mpr ⟨t, ht, List.mem_map.mpr ⟨c, hc, rfl⟩⟩
  exact Row.get_ofList hl hm

theorem project_flatRow {s : Shape} (hn : s.labels.Nodup) (cells : String → String → Value)
    {t : TableShape} (ht : t ∈ s.tables) :
    t.project (s.flatRow cells) = t.columns.map fun c => (c, cells t.aliasName c) := by
  refine List.map_congr_left fun c hc => ?_
  rw [get_flatRow hn cells ht hc]

end Shape

/-- **The labels of a find are different exactly if no two of its tables overlap**, and then
every table is read back from its own cells. -/
theorem labels_distinct_iff {r : Registry} {name : String} {o : FindOptions} {s : Select}
    (h : r.select name o = .ok s) :
    (s.shape.labels.Nodup ↔ ¬ s.shape.Overlapping) ∧
      (s.shape.labels.Nodup → ∀ cells : String → String → Value, ∀ t ∈ s.shape.tables,
        t.project (s.shape.flatRow cells) = t.columns.map fun c => (c, cells t.aliasName c)) := by
  obtain ⟨host, xs, hs⟩ := Registry.planned_of_select h
  exact ⟨Shape.nodup_labels_iff hs.keyed hs.nodup_aliases,
    fun hn cells _ ht => Shape.project_flatRow hn cells ht⟩

/-- Books with their chapters and tags. -/
def catalogue : FindOptions :=
  { FindOptions.all with
    includes :=
      [⟨"chapter", some "chapters", none, false, none⟩, ⟨"tag", some "tags", none, true, none⟩] }

theorem labels_distinct_library :
    ∃ s, Registry.library.select "book" catalogue = .ok s ∧ ¬ s.shape.Overlapping ∧
      ∀ cells : String → String → Value, s.shape.root.project (s.shape.flatRow cells) =
        [("id", cells "book" "id"), ("title", cells "book" "title")] := by
  refine ⟨_, rfl, ?_⟩
  obtain ⟨hiff, hread⟩ :=
    @labels_distinct_iff Registry.library "book" catalogue _ rfl
  have hn := hiff.mp (by decide)
  exact ⟨hn, fun cells => hread (hiff.mpr hn) cells _ List.mem_cons_self⟩

/-! ### Labels that agree -/

def post : Declaration := (Declaration.start "post").withColumn "tag_name" .string

def postTag : Declaration :=
  ((Declaration.start "post_tag").withColumn "name" .string).withColumn "post_id" .int64

def mainTag : Association := ⟨.hasOne, "post_tag", "post_id", none, none, some "post_tag"⟩

/-- Posts with a tag of their own in the table `post_tag`. -/
def blog : Registry where
  home := .empty
  entities := [Registry.attach "post" mainTag post.entity, postTag.entity]
  nodup := by decide

theorem reached_blog : blog.Reached := by
  have h₁ : Registry.Reached ⟨.empty, [post.entity], by decide⟩ :=
    .define (d := post) (.empty .empty) rfl
  have h₂ : Registry.Reached ⟨.empty, [post.entity, postTag.entity], by decide⟩ :=
    .define (d := postTag) h₁ rfl
  have ha : Registry.associate ⟨.empty, [post.entity, postTag.entity], by decide⟩ "post" mainTag =
      .ok (blog, mainTag) := rfl
  exact .associate h₂ ha

def tagged : FindOptions :=
  { FindOptions.all with includes := [⟨"post_tag", none, none, false, none⟩] }

/-- A post and its tag. -/
def taggedCells : String → String → Value
  | "post", "tag_name" => .string "A"
  | "post_tag", "name" => .string "B"
  | _, _ => .int64 1

/-- The post's column `tag_name` and its tag's column `name` have one label, and the post's cell is
read as the tag's. -/
theorem labels_not_always_distinct :
    blog.Reached ∧ ∃ s, blog.select "post" tagged = .ok s ∧ ¬ s.shape.labels.Nodup ∧
      s.shape.root.project (s.shape.flatRow taggedCells) =
        [("id", .int64 1), ("tag_name", .string "B")] :=
  ⟨reached_blog, _, rfl, by decide, rfl⟩

end RowGraph
