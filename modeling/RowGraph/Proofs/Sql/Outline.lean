import RowGraph.Proofs.Filter.Blank

/-!
# Proofs — Sql — outlines of statements

The outline of a statement is what can be seen of it without the values bound: its text and the
names of its parameters.  `Fragment.outline` takes the values out of a fragment, and leaves the
outline of its statement as it is (`Fragment.outline_statement`).  So plans whose fragments are
the same without their values have one outline.

The fragment of a predicate and that of the blanked predicate are the same without their values
(`Predicate.outline_blank`).
-/

namespace RowGraph

open Sql Fragment

/-- The text of a statement and the names of its parameters, in order. -/
def Sql.Statement.outline (s : Statement) : String × List String := (s.sql, s.params.map (·.1))

namespace Sql

/-- The chunk without the value bound by it. -/
def Chunk.outline : Chunk → Chunk
  | .param name _ => .param name .null
  | c => c

theorem Chunk.text_outline (c : Chunk) : c.outline.text = c.text := by cases c <;> rfl

theorem Chunk.spaced_outline (c d : Chunk) : c.outline.spaced d.outline = c.spaced d := by
  cases c with
  | token t => cases d with
    | token u => rfl
    | _ => cases t <;> rfl
  | _ => cases d with
    | token u => cases u <;> rfl
    | _ => rfl

namespace Fragment

/-- The fragment without the values bound in it. -/
def outline (f : Fragment) : Fragment := f.map Chunk.outline

theorem text_outline : ∀ f : Fragment, f.outline.text = f.text
  | [] => rfl
  | [c] => c.text_outline
  | c :: d :: rest => by
      have h := text_outline (d :: rest)
      simp only [outline, List.map_cons] at h ⊢
      simp only [text, h, Chunk.text_outline, Chunk.spaced_outline]

theorem names_outline (f : Fragment) :
    f.outline.params.map (·.1) = f.params.map (·.1) := by
  induction f with
  | nil => rfl
  | cons c f ih =>
      simp only [params, outline] at ih
      cases c <;> simp [params, outline, Chunk.outline, -List.filterMap_map, ih]

/-- Taking the values out leaves the outline. -/
theorem outline_statement (f : Fragment) : f.outline.statement.outline = f.statement.outline := by
  simp [statement, Statement.outline, text_outline, names_outline]

theorem statement_outline_congr {f g : Fragment} (h : f.outline = g.outline) :
    f.statement.outline = g.statement.outline := by
  rw [← outline_statement f, h, outline_statement]

/-! ### Fragments put together -/

@[simp] theorem outline_nil : outline [] = [] := rfl

@[simp] theorem outline_cons (c : Chunk) (f : Fragment) :
    outline (c :: f) = c.outline :: f.outline := rfl

@[simp] theorem outline_append (f g : Fragment) : (f ++ g).outline = f.outline ++ g.outline :=
  List.map_append

@[simp] theorem outline_token (t : Token) : (token t).outline = token t := rfl

@[simp] theorem outline_ident (name : String) : (ident name).outline = ident name := rfl

@[simp] theorem outline_column (q : Option String) (name : String) :
    (column q name).outline = column q name := by
  cases q <;> rfl

@[simp] theorem outline_param (n : Nat) (v : Value) : (param n v).outline = param n .null := rfl

@[simp] theorem outline_parens (f : Fragment) : f.parens.outline = f.outline.parens := by
  simp [parens, Chunk.outline]

@[simp] theorem outline_call (name : String) (f : Fragment) :
    (call name f).outline = call name f.outline := by
  simp [call, Chunk.outline]

@[simp] theorem outline_join (t : Token) :
    ∀ fs : List Fragment, (join t fs).outline = join t (fs.map outline)
  | [] => rfl
  | [_] => rfl
  | f :: g :: fs => by
      have h := outline_join t (g :: fs)
      simp only [List.map_cons] at h ⊢
      simp [join, Chunk.outline, h]

@[simp] theorem outline_commas (fs : List Fragment) :
    (commas fs).outline = commas (fs.map outline) := outline_join .comma fs

@[simp] theorem outline_joinGrouped (t : Token) (fs : List Fragment) :
    (joinGrouped t fs).outline = joinGrouped t (fs.map outline) := by
  rcases fs with _ | ⟨f, _ | ⟨g, fs⟩⟩ <;> simp [joinGrouped, Function.comp_def]

/-- Of the placeholders for values their number is left. -/
@[simp] theorem outline_paramsFrom (n : Nat) (vs : List Value) :
    (paramsFrom n vs).map outline = paramsFrom n (List.replicate vs.length .null) := by
  induction vs generalizing n with
  | nil => rfl
  | cons v vs ih => simp [paramsFrom, List.replicate_succ, ih]

end Fragment

end Sql

/-! ### Predicates -/

namespace Predicate

mutual

/-- A blanked predicate draws as many parameters. -/
theorem length_values_blank : ∀ p : Predicate, p.blank.values.length = p.values.length
  | .constant _ | .is _ _ _ | .compare _ _ _ | .between _ _ _ _ | .contains _ _ | .contained _ _ =>
      rfl
  | .among _ _ _ => by simp [blank, values]
  | .junction _ ps => length_valuesOf_blanks ps

theorem length_valuesOf_blanks : ∀ ps : List Predicate,
    (valuesOf (blanks ps)).length = (valuesOf ps).length
  | [] => rfl
  | p :: ps => by simp [blanks, valuesOf, length_values_blank p, length_valuesOf_blanks ps]

end

theorem size_blank (p : Predicate) : p.blank.size = p.size := length_values_blank p

mutual

/-- Without its values, a predicate is written as the blanked predicate is. -/
theorem outline_blank (q : Option String) : ∀ (p : Predicate) (n : Nat),
    (p.blank.fragment q n).outline = (p.fragment q n).outline
  | .constant _, _ | .is _ _ _, _ => rfl
  | .compare _ _ _, n | .among _ _ _, n | .between _ _ _ _, n | .contains _ _, n
  | .contained _ _, n => by simp [blank, fragment]
  | .junction c ps, n => by simp [blank, fragment, outline_blanks q ps n]

theorem outline_blanks (q : Option String) : ∀ (ps : List Predicate) (n : Nat),
    (groups q (blanks ps) n).map outline = (groups q ps n).map outline
  | [], _ => rfl
  | p :: ps, n => by
      simp [blanks, groups, size_blank, outline_blank q p n, outline_blanks q ps (n + p.size)]

end

end Predicate

end RowGraph
