import RowGraph.Proofs.Sql.Lexeme
import RowGraph.Proofs.Sql.Section

/-!
# Proofs — Sql — clauses set apart

A keyword is set apart by a blank from whatever stands in front of it but an opening parenthesis
and a dot.  So where fragments that begin with a keyword follow each other, **their texts follow
each other with a blank between them** (`Fragment.text_append`).
-/

namespace RowGraph.Sql

theorem Chunk.spaced_word {c : Chunk} (hl : c ≠ .token .lparen) (hd : c ≠ .token .dot) {t : Token}
    (ht : t.isWord) : c.spaced (.token t) = true := by
  by_cases hc : c.isWord ∨ c.isOperator
  · by_contra hs
    obtain ⟨u, hu, hp⟩ := isPunctuation_of_spaced (Bool.eq_false_iff.mpr hs) hc
    cases hu
    simp [Token.isWord, hp] at ht
  · cases c with
    | token u =>
        -- of the signs that are left neither the closing parenthesis nor the comma binds a word
        cases u <;> first
          | exact absurd rfl hl
          | exact absurd rfl hd
          | exact absurd (by decide) hc
          | (cases t <;> first | rfl | cases ht)
    | _ => exact absurd (.inl rfl) hc

namespace Fragment

/-- Nothing is left open at the end: a keyword behind the fragment is set apart from it. -/
def Closes (f : Fragment) : Prop := ∀ c ∈ f.getLast?, c ≠ .token .lparen ∧ c ≠ .token .dot

/-- If there is anything it begins with a keyword. -/
def Headed (f : Fragment) : Prop := ∀ c ∈ f.head?, ∃ t : Token, c = .token t ∧ t.isWord

/-- The text of a fragment that stands behind another: with a blank in front, if there is any. -/
def following (f : Fragment) : String := if f.isEmpty then "" else " " ++ f.text

theorem closes_concat {f : Fragment} {c : Chunk} (hl : c ≠ .token .lparen)
    (hd : c ≠ .token .dot) : Closes (f ++ [c]) := by
  intro d h
  rw [List.getLast?_concat] at h
  cases h
  exact ⟨hl, hd⟩

theorem Closes.append {f g : Fragment} (hf : f.Closes) (hg : g.Closes) : Closes (f ++ g) := by
  intro c hc
  rw [List.getLast?_append] at hc
  rcases Option.or_eq_some_iff.mp hc with h | ⟨-, h⟩
  · exact hg c h
  · exact hf c h

theorem closes_token {t : Token} (hp : t.isPunctuation = false ∨ t = .comma) :
    Closes (token t) := by
  refine closes_concat (f := []) ?_ ?_
  all_goals
    rintro ⟨⟩
    rcases hp with hp | hp <;> cases hp

theorem kept_closes : Kept Closes where
  nil := fun _ h => by cases h
  append := Closes.append
  parens {f} _ := closes_concat (f := .token .lparen :: f) (by simp) (by simp)
  token _ hp := closes_token hp
  unnest := closes_concat (f := []) (by simp) (by simp)
  ident _ := closes_concat (f := []) (by simp) (by simp)
  column q name := by
    cases q with
    | none => exact closes_concat (f := []) (by simp) (by simp)
    | some q => exact closes_concat (f := [.ident q, .token .dot]) (by simp) (by simp)
  param _ _ := closes_concat (f := []) (by simp) (by simp)

theorem headed_token {t : Token} (ht : t.isWord) (f : Fragment) : Headed (token t ++ f) := by
  intro c hc
  cases hc
  exact ⟨t, rfl, ht⟩

theorem text_append_word {t : Token} (ht : t.isWord) (g : Fragment) : ∀ {f : Fragment}, f ≠ [] →
    f.Closes → text (f ++ .token t :: g) = f.text ++ " " ++ text (.token t :: g)
  | [], hne, _ => absurd rfl hne
  | [c], _, hc => by
      obtain ⟨hl, hd⟩ := hc c rfl
      have h : text ([c] ++ .token t :: g) = c.text ++
          (if c.spaced (.token t) then " " else "") ++ text (.token t :: g) := rfl
      rw [h, Chunk.spaced_word hl hd ht, if_pos rfl]
      rfl
  | c :: d :: f, _, hc => by
      have ih := text_append_word ht g (List.cons_ne_nil d f) fun e he => hc e he
      have h : text (c :: d :: f ++ .token t :: g) =
          c.text ++ (if c.spaced d then " " else "") ++ text (d :: f ++ .token t :: g) := rfl
      rw [h, ih, text]
      simp only [String.append_assoc]

/-- **The text of a clause follows what stands in front of it.** -/
theorem text_append {f g : Fragment} (hne : f ≠ []) (hf : f.Closes) (hg : g.Headed) :
    (f ++ g).text = f.text ++ g.following := by
  cases g with
  | nil => rw [List.append_nil, following, List.isEmpty_nil, if_pos rfl, String.append_empty]
  | cons d g =>
      obtain ⟨t, rfl, ht⟩ := hg d rfl
      rw [text_append_word ht g hne hf, String.append_assoc]
      rfl

end Fragment

end RowGraph.Sql
