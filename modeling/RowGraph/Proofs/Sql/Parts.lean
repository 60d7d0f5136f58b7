import RowGraph.Proofs.Sql.Condition
import RowGraph.Proofs.Sql.Numbering

/-!
# Proofs — Sql — a text taken apart

A statement is taken apart at a word or a mark: `Lexeme.parts` gives what stands between those that
stand outside of parentheses, and nothing if a parenthesis is without its partner.  It goes by the
lexemes of the text alone.  `Lexeme.list?` reads a list in parentheses, item by item.

Some lexemes are in one part wherever they stand (`Lexeme.Whole`).  **Whole parts with a separator
between each two come apart where they were put together** (`Lexeme.parts_join`).
-/

namespace RowGraph.Sql

namespace Lexeme

/-! ### Taking apart -/

/-- How many parentheses are open behind a lexeme, if `n` are in front of it. -/
def nest (n : Nat) : Lexeme → Option Nat
  | .mark .lparen => some (n + 1)
  | .mark .rparen => if n = 0 then none else some (n - 1)
  | _ => some n

/-- What stands in front of the first separator, and the parts behind it, where `n` parentheses are
open. -/
def partsAt (sep : Lexeme) : Nat → List Lexeme → Option (List Lexeme × List (List Lexeme))
  | n, [] => if n = 0 then some ([], []) else none
  | n, l :: ls => (l.nest n).bind fun m => (partsAt sep m ls).map fun p =>
      if n = 0 ∧ l = sep then ([], p.1 :: p.2) else (l :: p.1, p.2)

/-- The parts between the separators that stand outside of parentheses. -/
def parts (sep : Lexeme) (ls : List Lexeme) : Option (List (List Lexeme)) :=
  (partsAt sep 0 ls).map fun p => p.1 :: p.2

example : (read "a, (b, c)").bind (parts (.mark .comma)) =
    some [[.word "a"], [.mark .lparen, .word "b", .mark .comma, .word "c", .mark .rparen]] := by
  decide +kernel

/-- What stands in a pair of parentheses. -/
def enclosed? : List Lexeme → Option (List Lexeme)
  | .mark .lparen :: ls => if ls.getLast? = some (.mark .rparen) then some ls.dropLast else none
  | _ => none

/-- The item a single lexeme is. -/
def single? (item : Lexeme → Option String) : List Lexeme → Option String
  | [l] => item l
  | _ => none

/-- The items of a list in parentheses. -/
def list? (item : Lexeme → Option String) (ls : List Lexeme) : Option (List String) := do
  let inner ← enclosed? ls
  let items ← parts (.mark .comma) inner
  items.mapM (single? item)

def ident? : Lexeme → Option String
  | .ident name => some name
  | _ => none

/-! ### What stays in one part -/

/-- It opens no parenthesis and closes none. -/
def Flat (l : Lexeme) : Prop := ∀ n, l.nest n = some n

theorem flat_of_ne {l : Lexeme} (ho : l ≠ .mark .lparen) (hc : l ≠ .mark .rparen) : l.Flat := by
  intro n
  unfold nest
  split
  · exact absurd rfl ho
  · exact absurd rfl hc
  · rfl

/-- Where `k` or more parentheses are open, the lexemes are in one part with what follows. -/
def Whole (sep : Lexeme) (k : Nat) (ls : List Lexeme) : Prop :=
  ∀ n, k ≤ n → ∀ rest,
    partsAt sep n (ls ++ rest) = (partsAt sep n rest).map fun p => (ls ++ p.1, p.2)

section

variable {sep : Lexeme} {k : Nat} {ls ms : List Lexeme}

theorem whole_nil : Whole sep k [] := fun n _ rest => by simp

theorem Whole.append (hl : Whole sep k ls) (hm : Whole sep k ms) : Whole sep k (ls ++ ms) := by
  intro n hn rest
  rw [List.append_assoc, hl n hn, hm n hn, Option.map_map]
  simp [Function.comp_def]

theorem Whole.mono {m : Nat} (hl : Whole sep k ls) (h : k ≤ m) : Whole sep m ls :=
  fun n hn => hl n (Nat.le_trans h hn)

/-- In parentheses a separator is a lexeme like any other. -/
theorem whole_singleton {l : Lexeme} (hl : l.Flat) (hs : k = 0 → l ≠ sep) : Whole sep k [l] := by
  intro n hn rest
  have hno : ¬ (n = 0 ∧ l = sep) := fun ⟨h₀, h⟩ => hs (by omega) h
  rw [List.singleton_append, partsAt, hl n, Option.bind_some]
  simp only [if_neg hno, List.singleton_append]

theorem whole_of_forall (h : ∀ l ∈ ls, l.Flat ∧ (k = 0 → l ≠ sep)) : Whole sep k ls := by
  induction ls with
  | nil => exact whole_nil
  | cons l ls ih =>
      obtain ⟨⟨hl, hs⟩, hls⟩ := List.forall_mem_cons.mp h
      exact (whole_singleton hl hs).append (ih hls)

/-- What is whole in parentheses is so together with them. -/
theorem Whole.parens (hsep : sep.Flat) {f : Fragment} (hf : Whole sep 1 f.lexemes) :
    Whole sep k f.parens.lexemes := by
  intro n _ rest
  have hopen : ¬ (n = 0 ∧ Lexeme.mark .lparen = sep) := by
    rintro ⟨-, rfl⟩
    cases hsep 0
  have hclose : ¬ (n + 1 = 0 ∧ Lexeme.mark .rparen = sep) := fun h => Nat.succ_ne_zero n h.1
  have hback : (Lexeme.mark .rparen).nest (n + 1) = some n := rfl
  rw [Fragment.lexemes_parens, partsAt, nest, Option.bind_some, hf (n + 1) (Nat.le_add_left 1 n),
    partsAt, hback, Option.bind_some]
  simp only [if_neg hopen, if_neg hclose, Option.map_map, Function.comp_def,
    Fragment.lexemes_parens]

/-! ### The parts -/

theorem parts_whole (hl : Whole sep 0 ls) : parts sep ls = some [ls] := by
  have h := hl 0 (Nat.le_refl 0) []
  rw [List.append_nil] at h
  rw [parts, h, partsAt]
  simp

/-- Behind a part and a separator the other parts follow. -/
theorem parts_append (hsep : sep.Flat) (hl : Whole sep 0 ls) (rest : List Lexeme) :
    parts sep (ls ++ sep :: rest) = (parts sep rest).map (ls :: ·) := by
  rw [parts, hl 0 (Nat.le_refl 0), partsAt, hsep 0, Option.bind_some, parts]
  simp [Function.comp_def]

theorem parts_two (hsep : sep.Flat) (hl : Whole sep 0 ls) (hm : Whole sep 0 ms) :
    parts sep (ls ++ sep :: ms) = some [ls, ms] := by
  rw [parts_append hsep hl, parts_whole hm]
  rfl

end

/-! ### Fragments with a token between each two -/

section

variable {sep : Lexeme} {k : Nat} {t : Token}

theorem whole_join (ht : Whole sep k t.lexemes) : ∀ {fs : List Fragment},
    (∀ f ∈ fs, Whole sep k f.lexemes) → Whole sep k (Fragment.join t fs).lexemes
  | [], _ => whole_nil
  | [f], h => h f List.mem_cons_self
  | f :: g :: fs, h => by
      have hr : Whole sep k (Fragment.join t (g :: fs)).lexemes :=
        whole_join ht fun e he => h e (List.mem_cons_of_mem f he)
      rw [← List.append_nil (Fragment.join t (f :: g :: fs)).lexemes, Fragment.lexemes_join,
        List.append_nil]
      exact (h f List.mem_cons_self).append (ht.append hr)

/-- **What is joined comes apart as it was put together.** -/
theorem parts_join (hsep : sep.Flat) (ht : t.lexemes = [sep]) : ∀ {fs : List Fragment}, fs ≠ [] →
    (∀ f ∈ fs, Whole sep 0 f.lexemes) →
      parts sep (Fragment.join t fs).lexemes = some (fs.map Fragment.lexemes)
  | [], hne, _ => absurd rfl hne
  | [f], _, h => parts_whole (h f List.mem_cons_self)
  | f :: g :: fs, _, h => by
      have ih := parts_join hsep ht (List.cons_ne_nil g fs) fun e he =>
        h e (List.mem_cons_of_mem f he)
      rw [← List.append_nil (Fragment.join t (f :: g :: fs)).lexemes, Fragment.lexemes_join,
        List.append_nil, ht, List.singleton_append, parts_append hsep (h f List.mem_cons_self), ih]
      rfl

end

/-! ### Lists in parentheses -/

theorem enclosed?_parens (f : Fragment) : enclosed? f.parens.lexemes = some f.lexemes := by
  rw [← List.append_nil f.parens.lexemes, Fragment.lexemes_parens, enclosed?,
    List.getLast?_concat, if_pos rfl, List.dropLast_concat]

theorem flat_comma : (Lexeme.mark .comma).Flat := fun _ => rfl

/-- The fragment is one lexeme, the item of this name. -/
def IsItem (item : Lexeme → Option String) (f : Fragment) (name : String) : Prop :=
  ∃ l, f.lexemes = [l] ∧ item l = some name

variable {item : Lexeme → Option String} {fs : List Fragment} {names : List String}

/-- An item is no mark. -/
theorem IsItem.whole (hitem : ∀ t, item (.mark t) = none) {f : Fragment} {name : String}
    (h : IsItem item f name) {sep : Lexeme} {k : Nat} (hs : k = 0 → item sep = none) :
    Whole sep k f.lexemes := by
  obtain ⟨l, hl, hn⟩ := h
  rw [hl]
  refine whole_singleton ?_ fun hk => ?_
  · cases l with
    | mark t => cases (hitem t).symm.trans hn
    | _ => exact fun _ => rfl
  · rintro rfl
    cases (hs hk).symm.trans hn

theorem mapM_single? (h : List.Forall₂ (IsItem item) fs names) :
    (fs.map Fragment.lexemes).mapM (single? item) = some names := by
  induction h with
  | nil => rfl
  | cons hf _ ih =>
      obtain ⟨l, hl, hn⟩ := hf
      rw [List.map_cons, List.mapM_cons, ih, hl, single?, hn]
      rfl

theorem whole_of_items (hitem : ∀ t, item (.mark t) = none)
    (h : List.Forall₂ (IsItem item) fs names) {sep : Lexeme} {k : Nat}
    (hs : k = 0 → item sep = none) : ∀ f ∈ fs, Whole sep k f.lexemes := by
  induction h with
  | nil => exact fun _ hf => absurd hf List.not_mem_nil
  | cons hf _ ih => exact List.forall_mem_cons.mpr ⟨hf.whole hitem hs, ih⟩

/-- A list is read item by item. -/
theorem list?_parens (hitem : ∀ t, item (.mark t) = none) (hne : fs ≠ [])
    (h : List.Forall₂ (IsItem item) fs names) :
    list? item (Fragment.parens (.commas fs)).lexemes = some names := by
  have hparts : parts (.mark .comma) (Fragment.commas fs).lexemes =
      some (fs.map Fragment.lexemes) :=
    parts_join flat_comma rfl hne (whole_of_items hitem h fun _ => hitem .comma)
  rw [list?, enclosed?_parens]
  simp only [Option.bind_eq_bind, Option.bind_some, hparts, mapM_single? h]

/-- A list is in one part wherever it stands. -/
theorem whole_list (hitem : ∀ t, item (.mark t) = none) (h : List.Forall₂ (IsItem item) fs names)
    {sep : Lexeme} (hsep : sep.Flat) {k : Nat} :
    Whole sep k (Fragment.parens (.commas fs)).lexemes := by
  refine Whole.parens hsep (whole_join ?_ (whole_of_items hitem h fun h => by cases h))
  exact whole_singleton flat_comma fun h => by cases h

theorem items_idents (names : List String) :
    List.Forall₂ (IsItem ident?) (names.map Fragment.ident) names := by
  induction names with
  | nil => exact .nil
  | cons name names ih => exact .cons ⟨_, rfl, rfl⟩ ih

theorem items_paramsFrom (n : Nat) (vs : List Value) : List.Forall₂ (IsItem param?)
    (Fragment.paramsFrom n vs) ((Params.numbered n vs).map (·.1)) := by
  induction vs generalizing n with
  | nil => exact .nil
  | cons v vs ih => exact .cons ⟨_, rfl, rfl⟩ (ih (n + 1))

end Lexeme

end RowGraph.Sql
