import Mathlib.Data.List.Nodup
import RowGraph.Proofs.Sql.Lexeme

/-!
# Proofs — Sql — numbered parameters

`Params.numbered n vs` binds the values `vs` to the names drawn from place `n` on.  A fragment
*carries* `vs` from `n` on (`Fragment.Carries`) if its parameters, in the order of their
placeholders, are exactly these.  Carrying goes piece by piece: two fragments side by side carry
what the one carries and then what the other does, if the second is numbered on from the first.

**A fragment that carries values binds them** (`Fragment.Carries.bindsFrom`): read from the
written form, the placeholders outside of quoted identifiers are the names that are bound, in the
same order and each once.
-/

namespace RowGraph.Sql

/-! ### Names -/

theorem toList_paramName (n : Nat) :
    (paramName n).toList = ['p', 'a', 'r', 'a', 'm'] ++ (toString n).toList := by
  have h : "param".toList = ['p', 'a', 'r', 'a', 'm'] := by decide
  rw [paramName, String.toList_append, h]

theorem isWord_paramName (n : Nat) : IsWord (paramName n).toList := by
  have h : IsWord ['p', 'a', 'r', 'a', 'm'] := by decide
  rw [toList_paramName]
  exact ⟨by simp, List.forall_mem_append.mpr ⟨h.2, (isWord_toString n).2⟩⟩

/-- A number is read off the digits it is written with. -/
theorem ofDigitChars_toString (n : Nat) : Nat.ofDigitChars 10 (toString n).toList 0 = n := by
  rw [Nat.toString_eq_repr, Nat.toList_repr, Nat.ofDigitChars_ten_toDigits]

theorem paramName_injective : Function.Injective paramName := by
  intro m n h
  have hl : (paramName m).toList = (paramName n).toList := by rw [h]
  rw [toList_paramName, toList_paramName, List.append_cancel_left_eq] at hl
  rw [← ofDigitChars_toString m, hl, ofDigitChars_toString]

/-! ### Numbered values -/

/-- The values bound to the names drawn from place `n` on. -/
def Params.numbered : Nat → List Value → Params
  | _, [] => []
  | n, v :: vs => (paramName n, v) :: numbered (n + 1) vs

namespace Params

theorem numbered_append (n : Nat) (vs ws : List Value) :
    numbered n (vs ++ ws) = numbered n vs ++ numbered (n + vs.length) ws := by
  induction vs generalizing n with
  | nil => rfl
  | cons v vs ih =>
      rw [List.cons_append, numbered, numbered, ih, List.cons_append, List.length_cons,
        Nat.add_assoc, Nat.add_comm 1]

theorem names_numbered (n : Nat) (vs : List Value) :
    (numbered n vs).map (·.1) = (List.range' n vs.length).map paramName := by
  induction vs generalizing n with
  | nil => rfl
  | cons v vs ih =>
      rw [numbered, List.map_cons, ih, List.length_cons, List.range'_succ, List.map_cons]

theorem values_numbered (n : Nat) (vs : List Value) : (numbered n vs).map (·.2) = vs := by
  induction vs generalizing n with
  | nil => rfl
  | cons v vs ih => rw [numbered, List.map_cons, ih]

theorem nodup_names_numbered (n : Nat) (vs : List Value) :
    ((numbered n vs).map (·.1)).Nodup := by
  rw [names_numbered]
  exact List.Nodup.map paramName_injective List.nodup_range'

/-- The names drawn from place `n` on are bound to the values. -/
def Binds (ps : Params) (n : Nat) (vs : List Value) : Prop :=
  ∀ i v, vs[i]? = some v → ps.get? (paramName (n + i)) = some v

theorem Binds.head {ps : Params} {n : Nat} {v : Value} {vs : List Value}
    (h : ps.Binds n (v :: vs)) : ps.get? (paramName n) = some v :=
  h 0 v rfl

theorem Binds.tail {ps : Params} {n : Nat} {v : Value} {vs : List Value}
    (h : ps.Binds n (v :: vs)) : ps.Binds (n + 1) vs := by
  intro i w hw
  rw [Nat.add_assoc, Nat.add_comm 1]
  exact h (i + 1) w hw

theorem Binds.left {ps : Params} {n : Nat} {vs ws : List Value} (h : ps.Binds n (vs ++ ws)) :
    ps.Binds n vs := by
  intro i v hv
  obtain ⟨hi, -⟩ := List.getElem?_eq_some_iff.mp hv
  refine h i v ?_
  rw [List.getElem?_append_left hi, hv]

theorem Binds.right {ps : Params} {n : Nat} {vs ws : List Value} (h : ps.Binds n (vs ++ ws)) :
    ps.Binds (n + vs.length) ws := by
  intro i w hw
  rw [Nat.add_assoc]
  refine h (vs.length + i) w ?_
  rw [List.getElem?_append_right (Nat.le_add_right _ _), Nat.add_sub_cancel_left, hw]

theorem binds_numbered (n : Nat) (vs : List Value) : (numbered n vs).Binds n vs := by
  induction vs generalizing n with
  | nil =>
      intro i v hv
      cases hv
  | cons v vs ih =>
      intro i w hw
      cases i with
      | zero => simpa [numbered, get?] using hw
      | succ i =>
          -- the first name is that of another place
          have hne : ¬ paramName n = paramName (n + (i + 1)) := fun h => by
            have := paramName_injective h
            omega
          have h := ih (n + 1) i w hw
          rw [Nat.add_assoc, Nat.add_comm 1] at h
          rw [numbered, get?, List.find?_cons_of_neg (by simpa using hne)]
          exact h

end Params

/-! ### Fragments that carry values -/

namespace Fragment

/-- The parameters of the fragment are the values, numbered from place `n` on. -/
structure Carries (f : Fragment) (n : Nat) (vs : List Value) : Prop where
  wellNamed : f.WellNamed
  params : f.params = Params.numbered n vs

/-- The same for fragments one after the other. -/
structure CarryAll (fs : List Fragment) (n : Nat) (vs : List Value) : Prop where
  wellNamed : ∀ f ∈ fs, WellNamed f
  params : fs.flatMap Fragment.params = Params.numbered n vs

theorem params_append (f g : Fragment) : (f ++ g).params = f.params ++ g.params :=
  List.filterMap_append

theorem Carries.append {f g : Fragment} {n : Nat} {vs ws : List Value} (hf : f.Carries n vs)
    (hg : g.Carries (n + vs.length) ws) : Carries (f ++ g) n (vs ++ ws) where
  wellNamed := wellNamed_append.mpr ⟨hf.wellNamed, hg.wellNamed⟩
  params := by rw [params_append, hf.params, hg.params, Params.numbered_append]

theorem Carries.append_nil {f g : Fragment} {n : Nat} {vs : List Value} (hf : f.Carries n vs)
    (hg : g.Carries (n + vs.length) []) : Carries (f ++ g) n vs :=
  List.append_nil vs ▸ hf.append hg

theorem Carries.nil_append {f g : Fragment} {n : Nat} {vs : List Value} (hf : f.Carries n [])
    (hg : g.Carries n vs) : Carries (f ++ g) n vs :=
  hf.append hg

theorem carries_nil (n : Nat) : Carries [] n [] where
  wellNamed := fun _ h => absurd h List.not_mem_nil
  params := rfl

theorem carries_token (t : Token) (n : Nat) : (token t).Carries n [] where
  wellNamed := fun c hc => by rw [List.mem_singleton.mp hc]; trivial
  params := rfl

theorem carries_ident (name : String) (n : Nat) : (ident name).Carries n [] where
  wellNamed := fun c hc => by rw [List.mem_singleton.mp hc]; trivial
  params := rfl

theorem carries_number (k n : Nat) : Carries [.number k] n [] where
  wellNamed := fun c hc => by rw [List.mem_singleton.mp hc]; trivial
  params := rfl

theorem carries_param (n : Nat) (v : Value) : (param n v).Carries n [v] where
  wellNamed := fun c hc => by rw [List.mem_singleton.mp hc]; exact isWord_paramName n
  params := rfl

theorem carries_column (q : Option String) (name : String) (n : Nat) :
    (column q name).Carries n [] := by
  cases q with
  | none => exact carries_ident name n
  | some q =>
      exact (carries_ident q n).nil_append
        ((carries_token .dot n).nil_append (carries_ident name n))

theorem wellNamed_parens {f : Fragment} (hf : f.WellNamed) : f.parens.WellNamed :=
  wellNamed_append.mpr ⟨List.forall_mem_cons.mpr ⟨trivial, hf⟩, (carries_token .rparen 0).wellNamed⟩

theorem params_parens (f : Fragment) : f.parens.params = f.params := by
  rw [Fragment.parens, params_append]
  exact List.append_nil _

theorem Carries.parens {f : Fragment} {n : Nat} {vs : List Value} (hf : f.Carries n vs) :
    f.parens.Carries n vs where
  wellNamed := wellNamed_parens hf.wellNamed
  params := by rw [params_parens, hf.params]

theorem Carries.call {name : String} {f : Fragment} {n : Nat} {vs : List Value}
    (hn : IsWord name.toList) (hf : f.Carries n vs) : (call name f).Carries n vs where
  wellNamed := List.forall_mem_cons.mpr ⟨hn, hf.parens.wellNamed⟩
  params := hf.parens.params

/-! ### Fragments one after the other -/

theorem carryAll_nil (n : Nat) : CarryAll [] n [] where
  wellNamed := fun _ h => absurd h List.not_mem_nil
  params := rfl

theorem CarryAll.cons {f : Fragment} {fs : List Fragment} {n : Nat} {vs ws : List Value}
    (hf : f.Carries n vs) (hfs : CarryAll fs (n + vs.length) ws) :
    CarryAll (f :: fs) n (vs ++ ws) where
  wellNamed := List.forall_mem_cons.mpr ⟨hf.wellNamed, hfs.wellNamed⟩
  params := by rw [List.flatMap_cons, hf.params, hfs.params, Params.numbered_append]

/-- Fragments without parameters. -/
theorem carryAll_of_forall {fs : List Fragment} {n : Nat} (h : ∀ f ∈ fs, f.Carries n []) :
    CarryAll fs n [] where
  wellNamed := fun f hf => (h f hf).wellNamed
  params := List.flatMap_eq_nil_iff.mpr fun f hf => (h f hf).params

theorem CarryAll.parens {fs : List Fragment} {n : Nat} {vs : List Value} (h : CarryAll fs n vs) :
    CarryAll (fs.map Fragment.parens) n vs where
  wellNamed := fun g hg => by
    obtain ⟨f, hf, rfl⟩ := List.mem_map.mp hg
    exact wellNamed_parens (h.wellNamed f hf)
  params := by
    rw [List.flatMap_map, ← h.params]
    exact congrArg (fs.flatMap ·) (funext params_parens)

theorem params_join (t : Token) :
    ∀ fs : List Fragment, (join t fs).params = fs.flatMap Fragment.params
  | [] => rfl
  | [f] => (List.append_nil _).symm
  | f :: g :: fs => by
      have hj : join t (f :: g :: fs) = f ++ .token t :: join t (g :: fs) := rfl
      have ht : Fragment.params (.token t :: join t (g :: fs)) = (join t (g :: fs)).params := rfl
      rw [hj, params_append, ht, params_join t (g :: fs), ← List.flatMap_cons]

theorem wellNamed_join (t : Token) :
    ∀ {fs : List Fragment}, (∀ f ∈ fs, WellNamed f) → (join t fs).WellNamed
  | [], _ => (carries_nil 0).wellNamed
  | [f], h => h f (by simp)
  | f :: g :: fs, h => by
      refine wellNamed_append.mpr ⟨h f (by simp), List.forall_mem_cons.mpr ⟨trivial, ?_⟩⟩
      exact wellNamed_join t fun e he => h e (List.mem_cons_of_mem f he)

theorem CarryAll.join {fs : List Fragment} {n : Nat} {vs : List Value} (h : CarryAll fs n vs)
    (t : Token) : (Fragment.join t fs).Carries n vs where
  wellNamed := wellNamed_join t h.wellNamed
  params := by rw [params_join, h.params]

theorem CarryAll.joinGrouped {fs : List Fragment} {n : Nat} {vs : List Value}
    (h : CarryAll fs n vs) (t : Token) : (Fragment.joinGrouped t fs).Carries n vs := by
  unfold Fragment.joinGrouped
  split
  · exact h.join t
  · exact h.parens.join t

theorem carryAll_paramsFrom (n : Nat) (vs : List Value) : CarryAll (paramsFrom n vs) n vs := by
  induction vs generalizing n with
  | nil => exact carryAll_nil n
  | cons v vs ih => exact (ih (n + 1)).cons (carries_param n v)

end Fragment

/-! ### Placeholders -/

def Lexeme.param? : Lexeme → Option String
  | .param name => some name
  | _ => none

/-- The names of the placeholders of a text, left to right.  What stands in a quoted identifier
is no placeholder. -/
def placeholders (text : String) : Option (List String) :=
  (Lexeme.read text).map (·.filterMap Lexeme.param?)

theorem Token.filterMap_lexemes (t : Token) : t.lexemes.filterMap Lexeme.param? = [] := by
  unfold lexemes
  split
  · rw [List.filterMap_map, List.filterMap_eq_nil_iff]
    exact fun _ _ => rfl
  · rfl

theorem Fragment.filterMap_lexemes (f : Fragment) :
    f.lexemes.filterMap Lexeme.param? = f.params.map (·.1) := by
  induction f with
  | nil => rfl
  | cons c f ih =>
      have hc : lexemes (c :: f) = c.lexemes ++ lexemes f := rfl
      rw [hc, List.filterMap_append, ih]
      cases c with
      | token t => rw [Chunk.lexemes, Token.filterMap_lexemes]; rfl
      | _ => rfl

theorem Fragment.placeholders_text {f : Fragment} (h : f.WellNamed) :
    placeholders f.text = some (f.params.map (·.1)) := by
  rw [placeholders, read_text h, Option.map_some, filterMap_lexemes]

/-- A statement whose placeholders and bindings are numbered from place `n` on and whose bound
values are `vs`, all of them in one order. -/
structure Statement.BindsFrom (s : Statement) (n : Nat) (vs : List Value) : Prop where
  /-- The names bound, in order. -/
  names : s.params.map (·.1) = (List.range' n vs.length).map paramName
  /-- No name is bound twice. -/
  distinct : (s.params.map (·.1)).Nodup
  /-- The placeholders of the text are the names bound, in order and each once. -/
  placeholders : placeholders s.sql = some (s.params.map (·.1))
  /-- The values bound, in order. -/
  values : s.params.map (·.2) = vs

theorem Fragment.Carries.bindsFrom {f : Fragment} {n : Nat} {vs : List Value}
    (h : f.Carries n vs) : f.statement.BindsFrom n vs where
  names := by rw [statement, h.params, Params.names_numbered]
  distinct := by rw [statement, h.params]; exact Params.nodup_names_numbered n vs
  placeholders := placeholders_text h.wellNamed
  values := by rw [statement, h.params, Params.values_numbered]

end RowGraph.Sql
