import RowGraph.Config.Load

/-!
# Proofs — Config — paths of tables

The path of a table is written with dots, and a project may hold dots of its own.  A path is read
from behind (`Namespace.read`): the table is what follows its last dot, the dataset what stands
between the last two, and all the rest is the project.

* `Config.validate_eq_ok_iff`: what is checked of settings.
* `Config.loadWith_eq_ok_iff`: settings that are loaded are valid, whatever reads the document.
* `Config.read_qualify`: a table under valid settings is read off its path, with where it lives.

**Valid settings never confuse tables** (`Config.qualify_eq_iff`): paths agree only if project,
dataset and table do.
-/

namespace RowGraph

/-! ### Reading a path -/

namespace Namespace

/-- What stands in front of the last dot and behind it, if there is a dot. -/
def cut : List Char → Option (List Char × List Char)
  | [] => none
  | c :: cs =>
      match cut cs with
      | some (front, behind) => some (c :: front, behind)
      | none => if c = '.' then some ([], cs) else none

/-- Where a table lives, and its name, read off its path. -/
def read (path : String) : Namespace × String :=
  match cut path.toList with
  | none => (.empty, path)
  | some (front, table) =>
      match cut front with
      | none => (⟨none, some (.ofList front)⟩, .ofList table)
      | some (project, dataset) => (⟨some (.ofList project), some (.ofList dataset)⟩, .ofList table)

theorem cut_of_not_mem {cs : List Char} (h : '.' ∉ cs) : cut cs = none := by
  induction cs with
  | nil => rfl
  | cons c cs ih =>
      rw [List.mem_cons, not_or] at h
      rw [cut, ih h.2]
      exact if_neg (Ne.symm h.1)

/-- Without a dot behind it, a dot is the last. -/
theorem cut_append (front : List Char) {behind : List Char} (h : '.' ∉ behind) :
    cut (front ++ '.' :: behind) = some (front, behind) := by
  induction front with
  | nil => rw [List.nil_append, cut, cut_of_not_mem h, if_pos rfl]
  | cons c front ih => rw [List.cons_append, cut, ih]

theorem toList_dotted (a b : String) : (a ++ "." ++ b).toList = a.toList ++ '.' :: b.toList := by
  rw [String.toList_append, String.toList_append, List.append_assoc]
  rfl

end Namespace

/-! ### Valid settings -/

namespace Config

/-- What is asked of settings. -/
structure Valid (c : Config) : Prop where
  /-- A project has a dataset. -/
  dataset : ∀ p, c.projectId = some p → ∃ d, c.dataset = some d
  projectName : ∀ p, c.projectId = some p → isName isProjectChar p
  datasetName : ∀ d, c.dataset = some d → isName isNameChar d
  limit : c.defaultLimit ≠ some 0

/-- A check is passed if what it looks for is not there, and goes on with the rest. -/
theorem check_eq_ok_iff {p : Prop} [Decidable p] {f : Fault} {rest : Except Fault Unit} :
    (do if p then throw f
        rest) = .ok () ↔ ¬ p ∧ rest = .ok () := by
  by_cases hp : p <;> simp [hp, throw, throwThe, MonadExceptOf.throw, bind, Except.bind]

theorem last_check_eq_ok_iff {p : Prop} [Decidable p] {f : Fault} :
    (do if p then throw f : Except Fault Unit) = .ok () ↔ ¬ p := by
  by_cases hp : p <;> simp [hp, throw, throwThe, MonadExceptOf.throw, pure, Except.pure]

theorem validate_eq_ok_iff {c : Config} : c.validate = .ok () ↔ c.Valid := by
  have hdataset : ¬ (c.projectId.isSome && c.dataset.isNone) = true ↔
      ∀ p, c.projectId = some p → ∃ d, c.dataset = some d := by
    cases c.projectId <;> cases c.dataset <;> simp
  rw [validate, check_eq_ok_iff, check_eq_ok_iff, check_eq_ok_iff, last_check_eq_ok_iff, hdataset]
  simp only [Bool.not_eq_true, Option.any_eq_false, Bool.not_eq_false']
  exact ⟨fun ⟨hd, hp, hn, hl⟩ => ⟨hd, hp, hn, hl⟩, fun ⟨hd, hp, hn, hl⟩ => ⟨hd, hp, hn, hl⟩⟩

/-- Settings are loaded exactly if the file has a text, which reads as settings that are valid. -/
theorem loadWith_eq_ok_iff {read : String → Option Config} {path : String}
    {contents : Option (List UInt8)} {c : Config} :
    loadWith read path contents = .ok c ↔
      ∃ bytes text, contents = some bytes ∧ Utf8.decode? bytes = some text ∧ read text = some c ∧
        c.Valid := by
  simp only [← validate_eq_ok_iff]
  unfold loadWith
  constructor
  · intro h
    split at h
    case h_1 => cases h
    case h_2 bytes =>
        split at h
        case h_1 => cases h
        case h_2 text htext =>
            split at h
            case h_1 => cases h
            case h_2 c' hread =>
                split at h
                case h_1 => cases h
                case h_2 hvalid =>
                    cases h
                    exact ⟨bytes, text, rfl, htext, hread, hvalid⟩
  · rintro ⟨bytes, text, rfl, htext, hread, hvalid⟩
    simp only [htext, hread, hvalid]

/-- A dataset's name has no dot. -/
theorem Valid.dot_not_mem {c : Config} (h : c.Valid) {d : String} (hd : c.dataset = some d) :
    '.' ∉ d.toList := by
  intro hm
  have hn := h.datasetName d hd
  rw [isName, Bool.and_eq_true] at hn
  exact absurd (List.all_eq_true.mp hn.2 '.' hm) (by decide)

/-- A project stands in front of every path. -/
theorem Valid.qualify_project {c : Config} (h : c.Valid) {p : String} (hp : c.projectId = some p)
    (t : String) : ∃ d, c.dataset = some d ∧ c.home.qualify t = p ++ "." ++ d ++ "." ++ t := by
  obtain ⟨d, hd⟩ := h.dataset p hp
  exact ⟨d, hd, by simp only [home, Namespace.qualify, hp, hd]⟩

/-- **A table is read off its path**, with the project and the dataset it lives in. -/
theorem read_qualify {c : Config} (h : c.Valid) {t : String} (ht : '.' ∉ t.toList) :
    Namespace.read (c.home.qualify t) = (c.home, t) := by
  cases hd : c.dataset with
  | none =>
      have hp : c.projectId = none := by
        cases hp : c.projectId with
        | none => rfl
        | some p =>
            obtain ⟨d, hd'⟩ := h.dataset p hp
            rw [hd] at hd'
            cases hd'
      have hhome : c.home = .empty := by rw [home, hp, hd]; rfl
      have hpath : c.home.qualify t = t := by rw [hhome]; rfl
      rw [hpath, hhome, Namespace.read, Namespace.cut_of_not_mem ht]
  | some d =>
      have hdot := h.dot_not_mem hd
      cases hp : c.projectId with
      | none =>
          have hhome : c.home = ⟨none, some d⟩ := by rw [home, hp, hd]
          have hpath : c.home.qualify t = d ++ "." ++ t := by rw [hhome]; rfl
          rw [hpath, hhome, Namespace.read, Namespace.toList_dotted, Namespace.cut_append _ ht]
          simp only [Namespace.cut_of_not_mem hdot, String.ofList_toList]
      | some p =>
          have hhome : c.home = ⟨some p, some d⟩ := by rw [home, hp, hd]
          have hpath : c.home.qualify t = p ++ "." ++ d ++ "." ++ t := by rw [hhome]; rfl
          rw [hpath, hhome, Namespace.read, Namespace.toList_dotted, Namespace.cut_append _ ht]
          simp only [Namespace.toList_dotted, Namespace.cut_append _ hdot, String.ofList_toList]

/-- Under settings that were loaded every table is read off its path. -/
theorem read_qualify_of_load {path : String} {contents : Option (List UInt8)} {c : Config}
    (h : load path contents = .ok c) {t : String} (ht : '.' ∉ t.toList) :
    Namespace.read (c.home.qualify t) = (c.home, t) := by
  obtain ⟨_, _, -, -, -, hvalid⟩ := loadWith_eq_ok_iff.mp h
  exact read_qualify hvalid ht

/-- **Valid settings never confuse tables.**  A table under valid settings is read off its path, so
two paths agree exactly if project, dataset and table do; and the project, if there is one, is in
the path. -/
theorem qualify_eq_iff {c c' : Config} (h : c.validate = .ok ()) (h' : c'.validate = .ok ())
    {t t' : String} (ht : '.' ∉ t.toList) (ht' : '.' ∉ t'.toList) :
    Namespace.read (c.home.qualify t) = (c.home, t) ∧
      (c.home.qualify t = c'.home.qualify t' ↔
        c.projectId = c'.projectId ∧ c.dataset = c'.dataset ∧ t = t') ∧
      ∀ p, c.projectId = some p →
        ∃ d, c.dataset = some d ∧ c.home.qualify t = p ++ "." ++ d ++ "." ++ t := by
  rw [validate_eq_ok_iff] at h h'
  refine ⟨read_qualify h ht, ⟨fun heq => ?_, ?_⟩, fun p hp => h.qualify_project hp t⟩
  · have hread : (c.home, t) = (c'.home, t') := by
      rw [← read_qualify h ht, heq, read_qualify h' ht']
    obtain ⟨hhome, htable⟩ := Prod.mk.inj hread
    exact ⟨congrArg Namespace.project hhome, congrArg Namespace.dataset hhome, htable⟩
  · rintro ⟨hp, hd, rfl⟩
    rw [home, home, hp, hd]

/-- A project with a dot is read off whole, and a shorter one leads elsewhere. -/
theorem qualify_eq_iff_sales :
    Namespace.read ((Config.mk (some "acme.eu") (some "sales") none none).home.qualify "orders") =
        (⟨some "acme.eu", some "sales"⟩, "orders") ∧
      (Config.mk (some "acme.eu") (some "sales") none none).home.qualify "orders" ≠
        (Config.mk (some "acme") (some "eu") none none).home.qualify "salesorders" := by
  obtain ⟨hread, hiff, -⟩ :=
    @qualify_eq_iff ⟨some "acme.eu", some "sales", none, none⟩ ⟨some "acme", some "eu", none, none⟩
      rfl rfl "orders" "salesorders" (by decide) (by decide)
  exact ⟨hread, fun heq => absurd (hiff.mp heq).2.2 (by decide)⟩

/-- A dataset with a dot, which is not valid, can be taken for a project with its dataset. -/
example : (Config.mk (some "acme") (some "eu") none none).home.qualify "orders" =
    (Config.mk none (some "acme.eu") none none).home.qualify "orders" := by decide

end Config

end RowGraph
