import RowGraph.Proofs.Filter.Bound
import RowGraph.Proofs.Sql.Condition

/-!
# Proofs — Filter — predicates read back

The text of a predicate is read as its own structure: `Predicate.condition` is the condition a
predicate stands for, and **the lexemes of its fragment are read as that condition**
(`Predicate.readsAs_fragment`), up to the end or a closing parenthesis.  A leaf may stand bare,
the `AND` of a `BETWEEN` included, since the parts of a junction are always in parentheses.

`Predicate.truth` evaluates a predicate on a row without the detour through text, and
`Predicate.truth?_condition` says that the condition has the same truth wherever its placeholders
are bound to the predicate's values.
-/

namespace RowGraph

open Sql

/-! ### Conditions of predicates -/

/-- Two conditions put together. -/
def Connective.condition : Connective → Condition → Condition → Condition
  | .and => .both
  | .or => .either

/-- Conditions put together from left to right. -/
def Connective.chain (c : Connective) : List Condition → Condition
  | [] => .constant true
  | [d] => d
  | d :: ds => c.condition d (c.chain ds)

namespace Predicate

/-- The placeholders for values from place `n` on. -/
def placeholdersFrom : Nat → List Value → List Term
  | _, [] => []
  | n, _ :: vs => .param (paramName n) :: placeholdersFrom (n + 1) vs

mutual

/-- The condition a predicate stands for, columns behind `q` and placeholders from place `n` on. -/
def condition (q : Option String) : Predicate → Nat → Condition
  | .constant b, _ => .constant b
  | .is column negated k, _ => .is (.column q column) negated k
  | .compare column c _, n => .compare c (.column q column) (.param (paramName n))
  | .among column negated vs, n => .among (.column q column) negated (placeholdersFrom n vs)
  | .between column negated _ _, n =>
      .between (.column q column) negated (.param (paramName n)) (.param (paramName (n + 1)))
  | .contains column _, n => .unnest (.param (paramName n)) (.column q column)
  | .contained column _, n => .unnest (.column q column) (.param (paramName n))
  | .junction c ps, n => c.chain (conditions q ps n)

def conditions (q : Option String) : List Predicate → Nat → List Condition
  | [], _ => []
  | p :: ps, n => p.condition q n :: conditions q ps (n + p.size)

end

mutual

/-- No list of values and no junction is empty. -/
def Proper : Predicate → Prop
  | .among _ _ vs => vs ≠ []
  | .junction _ ps => ps ≠ [] ∧ AllProper ps
  | _ => True

def AllProper : List Predicate → Prop
  | [] => True
  | p :: ps => p.Proper ∧ AllProper ps

end

/-! ### Reading the parts -/

open Condition (items predicate)

theorem items_paramsFrom {vs : List Value} (hvs : vs ≠ []) (n : Nat) (rest : List Lexeme) :
    items ((Fragment.commas (Fragment.paramsFrom n vs)).lexemes ++ .mark .rparen :: rest) =
      some (placeholdersFrom n vs, rest) := by
  induction vs generalizing n with
  | nil => exact absurd rfl hvs
  | cons v vs ih =>
      cases vs with
      | nil => rfl
      | cons w vs =>
          have h : (Fragment.commas (Fragment.paramsFrom n (v :: w :: vs))).lexemes =
              .param (paramName n) :: .mark .comma ::
                (Fragment.commas (Fragment.paramsFrom (n + 1) (w :: vs))).lexemes := rfl
          rw [h, List.cons_append, List.cons_append, items, ih (by simp)]
          rfl

theorem predicate_among (q : Option String) (column : String) (negated : Bool) {vs : List Value}
    (hvs : vs ≠ []) (n : Nat) (rest : List Lexeme) :
    predicate (((among column negated vs).fragment q n).lexemes ++ rest) =
      some ((among column negated vs).condition q n, rest) := by
  have hi := items_paramsFrom hvs n rest
  rw [fragment, Fragment.lexemes_append, List.append_assoc, Fragment.lexemes_parens]
  -- everything in front of the placeholders is read by evaluation
  generalize (Fragment.commas (Fragment.paramsFrom n vs)).lexemes ++ .mark .rparen :: rest = ls
    at hi
  have h : predicate ((Fragment.column q column ++
      Fragment.token (if negated then .notIn else .isIn)).lexemes ++ .mark .lparen :: ls) =
        (items ls).map fun r => (.among (.column q column) negated r.1, r.2) := by
    cases q <;> cases negated <;> rfl
  rw [h, hi]
  rfl

/-- A predicate that is no junction is read as a predicate, whatever follows. -/
theorem predicate_fragment (q : Option String) (n : Nat) (rest : List Lexeme) :
    ∀ {p : Predicate}, p.Proper → (∀ c ps, p ≠ .junction c ps) →
      predicate ((p.fragment q n).lexemes ++ rest) = some (p.condition q n, rest)
  | .constant b, _, _ => by cases b <;> rfl
  | .is column negated k, _, _ => by cases q <;> cases negated <;> cases k <;> rfl
  | .compare column c v, _, _ => by cases q <;> cases c <;> rfl
  | .among column negated vs, h, _ => predicate_among q column negated h n rest
  | .between column negated low high, _, _ => by cases q <;> cases negated <;> rfl
  | .contains column v, _, _ => by cases q <;> rfl
  | .contained column vs, _, _ => by cases q <;> rfl
  | .junction c ps, _, h => absurd rfl (h c ps)

end Predicate

/-! ### Reading junctions -/

namespace Sql.Fragment

/-- The fragment is read as the condition, up to the end or a closing parenthesis. -/
def ReadsAs (f : Fragment) (d : Condition) : Prop :=
  ∀ (k : Nat) (rest : List Lexeme), Condition.Closed rest → 3 * f.lexemes.length ≤ k →
    Condition.disjunction k (f.lexemes ++ rest) = some (d, rest)

theorem ReadsAs.read_text {f : Fragment} {d : Condition} (h : f.ReadsAs d) (hw : f.WellNamed) :
    Condition.read f.text = some d := by
  have hd := h _ [] Condition.closed_nil (Nat.le_refl _)
  rw [List.append_nil] at hd
  rw [Condition.read, Fragment.read_text hw]
  simp [hd]

/-- The fragment is in parentheses, and what they enclose is read as the condition. -/
def Encloses (g : Fragment) (d : Condition) : Prop := ∃ f : Fragment, g = f.parens ∧ f.ReadsAs d

theorem length_parens (f : Fragment) : f.parens.lexemes.length = f.lexemes.length + 2 := by
  have h := lexemes_parens f []
  rw [List.append_nil] at h
  rw [h]
  simp

theorem length_join (t : Token) (f g : Fragment) (fs : List Fragment) :
    (join t (f :: g :: fs)).lexemes.length =
      f.lexemes.length + t.lexemes.length + (join t (g :: fs)).lexemes.length := by
  have h := lexemes_join t f g fs []
  rw [List.append_nil, List.append_nil] at h
  rw [h]
  simp only [List.length_append]
  omega

theorem Encloses.two_le {g : Fragment} {d : Condition} (h : g.Encloses d) :
    2 ≤ g.lexemes.length := by
  obtain ⟨f, rfl, -⟩ := h
  rw [length_parens]
  omega

theorem two_le_join (t : Token) {gs : List Fragment} {ds : List Condition} (hgs : gs ≠ [])
    (h : List.Forall₂ Encloses gs ds) : 2 ≤ (join t gs).lexemes.length := by
  cases h with
  | nil => exact absurd rfl hgs
  | cons hg hrest =>
      have htwo := hg.two_le
      cases hrest with
      | nil => exact htwo
      | cons _ _ =>
          rw [length_join]
          omega

/-- What is in parentheses is two lexemes longer than what they enclose, and three calls deeper. -/
theorem Encloses.factor {g : Fragment} {d : Condition} (h : g.Encloses d) {k : Nat}
    (rest : List Lexeme) (hk : 3 * g.lexemes.length ≤ k + 6) :
    Condition.factor (k + 1) (g.lexemes ++ rest) = some (d, rest) := by
  obtain ⟨f, rfl, hf⟩ := h
  rw [length_parens] at hk
  exact Condition.factor_parens (hf k _ (Condition.closed_rparen rest) (by omega))

/-- Parts with `OR` between them. -/
theorem disjunction_join {gs : List Fragment} {ds : List Condition} (hgs : gs ≠ [])
    (h : List.Forall₂ Encloses gs ds) {k : Nat} {rest : List Lexeme} (hr : Condition.Closed rest)
    (hk : 3 * (join .or gs).lexemes.length ≤ k) :
    Condition.disjunction k ((join .or gs).lexemes ++ rest) =
      some (Connective.or.chain ds, rest) := by
  induction h generalizing k with
  | nil => exact absurd rfl hgs
  | @cons g d gs ds hg hrest ih =>
      have htwo := hg.two_le
      cases hrest with
      | nil =>
          have hlen : 3 * g.lexemes.length ≤ k := hk
          obtain ⟨j, rfl⟩ : ∃ j, k = j + 3 := ⟨k - 3, by omega⟩
          exact Condition.disjunction_of_factor (hg.factor rest (by omega)) hr
      | cons hg' hrest' =>
          rw [length_join] at hk
          obtain ⟨j, rfl⟩ : ∃ j, k = j + 3 := ⟨k - 3, by omega⟩
          rw [lexemes_join]
          exact Condition.disjunction_cons (hg.factor _ (by omega)) (ih (by simp) (by omega))

/-- Parts with `AND` between them. -/
theorem conjunction_join {gs : List Fragment} {ds : List Condition} (hgs : gs ≠ [])
    (h : List.Forall₂ Encloses gs ds) {k : Nat} {rest : List Lexeme} (hr : Condition.Closed rest)
    (hk : 3 * (join .and gs).lexemes.length ≤ k + 1) :
    Condition.conjunction k ((join .and gs).lexemes ++ rest) =
      some (Connective.and.chain ds, rest) := by
  induction h generalizing k with
  | nil => exact absurd rfl hgs
  | @cons g d gs ds hg hrest ih =>
      have htwo := hg.two_le
      cases hrest with
      | nil =>
          have hlen : 3 * g.lexemes.length ≤ k + 1 := hk
          obtain ⟨j, rfl⟩ : ∃ j, k = j + 2 := ⟨k - 2, by omega⟩
          exact Condition.conjunction_of_factor (hg.factor rest (by omega)) (hr.ne_word "AND")
      | cons hg' hrest' =>
          rw [length_join] at hk
          obtain ⟨j, rfl⟩ : ∃ j, k = j + 2 := ⟨k - 2, by omega⟩
          rw [lexemes_join]
          exact Condition.conjunction_cons (hg.factor _ (by omega)) (ih (by simp) (by omega))

/-- Parts in parentheses are read as the chain of their conditions. -/
theorem readsAs_join (c : Connective) {gs : List Fragment} {ds : List Condition} (hgs : gs ≠ [])
    (h : List.Forall₂ Encloses gs ds) : (join c.token gs).ReadsAs (c.chain ds) := by
  intro k rest hr hk
  cases c with
  | or => exact disjunction_join hgs h hr hk
  | and =>
      have hpos := two_le_join .and hgs h
      have hk' : 3 * (join .and gs).lexemes.length ≤ k := hk
      obtain ⟨j, rfl⟩ : ∃ j, k = j + 1 := ⟨k - 1, by omega⟩
      exact Condition.disjunction_of_conjunction (conjunction_join hgs h hr hk') (hr.ne_word "OR")

end Sql.Fragment

namespace Predicate

/-- A leaf stands for itself where a condition may end. -/
theorem readsAs_leaf (q : Option String) (n : Nat) {p : Predicate} (hp : p.Proper)
    (hl : ∀ c ps, p ≠ .junction c ps) : (p.fragment q n).ReadsAs (p.condition q n) := by
  intro k rest hr hk
  have hpos : 1 ≤ (p.fragment q n).lexemes.length := by
    have h := predicate_fragment q n [] hp hl
    rcases hf : (p.fragment q n).lexemes with _ | ⟨l, ls⟩
    · rw [hf] at h
      cases h
    · simp
  obtain ⟨j, rfl⟩ : ∃ j, k = j + 3 := ⟨k - 3, by omega⟩
  have h := predicate_fragment q n rest hp hl
  exact Condition.disjunction_of_factor (Condition.factor_of_predicate h j) hr

theorem groups_ne_nil (q : Option String) (n : Nat) {ps : List Predicate} (hps : ps ≠ []) :
    groups q ps n ≠ [] := by
  cases ps with
  | nil => exact absurd rfl hps
  | cons p ps => exact List.cons_ne_nil _ _

mutual

/-- **The lexemes of a predicate's fragment are read as its condition**, up to the end or a closing
parenthesis. -/
theorem readsAs_fragment (q : Option String) : ∀ {p : Predicate} (n : Nat), p.Proper →
    (p.fragment q n).ReadsAs (p.condition q n)
  | .junction c _, n, hp =>
      Fragment.readsAs_join c (groups_ne_nil q n hp.1) (encloses_groups q n hp.2)
  | .constant _, n, hp => readsAs_leaf q n hp (by simp)
  | .is _ _ _, n, hp => readsAs_leaf q n hp (by simp)
  | .compare _ _ _, n, hp => readsAs_leaf q n hp (by simp)
  | .among _ _ _, n, hp => readsAs_leaf q n hp (by simp)
  | .between _ _ _ _, n, hp => readsAs_leaf q n hp (by simp)
  | .contains _ _, n, hp => readsAs_leaf q n hp (by simp)
  | .contained _ _, n, hp => readsAs_leaf q n hp (by simp)

theorem encloses_groups (q : Option String) : ∀ {ps : List Predicate} (n : Nat), AllProper ps →
    List.Forall₂ Fragment.Encloses (groups q ps n) (conditions q ps n)
  | [], _, _ => .nil
  | _ :: _, n, hps => .cons ⟨_, rfl, readsAs_fragment q n hps.1⟩ (encloses_groups q _ hps.2)

end

/-- The text of a proper predicate is read as its condition. -/
theorem read_text_fragment (q : Option String) (n : Nat) {p : Predicate} (hp : p.Proper) :
    Condition.read (p.fragment q n).text = some (p.condition q n) :=
  (readsAs_fragment q n hp).read_text (p.carries_fragment q n).wellNamed

end Predicate

/-! ### Truth -/

/-- Truth values put together. -/
def Connective.fold : Connective → List Truth → Truth
  | .and => .all
  | .or => .any

namespace Predicate

mutual

/-- The truth of a predicate on a row. -/
def truth (I : Interpretation) (row : String → Value) : Predicate → Truth
  | .constant b => .ofBool b
  | .is column negated k => (Truth.ofBool (isKeyword k (row column))).negateIf negated
  | .compare column c v => I.compare c (row column) v
  | .among column negated vs => (I.among (row column) vs).negateIf negated
  | .between column negated low high => (I.between (row column) low high).negateIf negated
  | .contains column v => I.among v (itemsOf (row column))
  | .contained column vs => I.among (row column) vs
  | .junction c ps => c.fold (truths I row ps)

def truths (I : Interpretation) (row : String → Value) : List Predicate → List Truth
  | [] => []
  | p :: ps => p.truth I row :: truths I row ps

end

theorem mapM_placeholdersFrom {s : Scope} {n : Nat} {vs : List Value} (h : s.params.Binds n vs) :
    (placeholdersFrom n vs).mapM (Term.value? s) = some vs := by
  induction vs generalizing n with
  | nil => rfl
  | cons v vs ih => simp [placeholdersFrom, Term.value?, h.head, ih h.tail]

/-- A chain of conditions has the truths of its members put together. -/
theorem truth?_chain {I : Interpretation} {s : Scope} (c : Connective) {ds : List Condition}
    {ts : List Truth} (hds : ds ≠ [])
    (h : List.Forall₂ (fun d t => Condition.truth? I s d = some t) ds ts) :
    (c.chain ds).truth? I s = some (c.fold ts) := by
  induction h with
  | nil => exact absurd rfl hds
  | @cons d t ds ts hd hrest ih =>
      cases hrest with
      | nil => cases c <;> simp [Connective.chain, Connective.fold, Truth.all, Truth.any, hd,
          Truth.and_true, Truth.or_false]
      | cons hd' hrest' =>
          have ih' := ih (by simp)
          cases c
          all_goals
            rw [Connective.chain, Connective.condition, Condition.truth?, hd, ih']
            · rfl
            · simp

mutual

/-- A proper predicate's condition has the predicate's truth, if its placeholders are bound to the
predicate's values. -/
theorem truth?_condition (I : Interpretation) (s : Scope) (q : Option String) :
    ∀ {p : Predicate} (n : Nat), p.Proper → s.params.Binds n p.values →
      (p.condition q n).truth? I s = some (p.truth I (s.column q))
  | .constant b, n, hp, hb => rfl
  | .is column negated k, n, hp, hb => rfl
  | .compare column c v, n, hp, hb => by
      simp [condition, Condition.truth?, Term.value?, truth, hb.head]
  | .among column negated vs, n, hp, hb => by
      have hm : (placeholdersFrom n vs).mapM (Term.value? s) = some vs := mapM_placeholdersFrom hb
      simp [condition, Condition.truth?, Term.value?, truth, hm]
  | .between column negated low high, n, hp, hb => by
      simp [condition, Condition.truth?, Term.value?, truth, hb.head, hb.tail.head]
  | .contains column v, n, hp, hb => by
      simp [condition, Condition.truth?, Term.value?, truth, hb.head]
  | .contained column vs, n, hp, hb => by
      simp [condition, Condition.truth?, Term.value?, truth, hb.head, itemsOf]
  | .junction c ps, n, hp, hb => by
      rcases ps with _ | ⟨p, ps⟩
      · exact absurd rfl hp.1
      · exact truth?_chain c (by simp [conditions]) (truth?_conditions I s q n hp.2 hb)

theorem truth?_conditions (I : Interpretation) (s : Scope) (q : Option String) :
    ∀ {ps : List Predicate} (n : Nat), AllProper ps → s.params.Binds n (valuesOf ps) →
      List.Forall₂ (fun d t => Condition.truth? I s d = some t) (conditions q ps n)
        (truths I (s.column q) ps)
  | [], _, _, _ => .nil
  | _ :: _, n, hps, hb =>
      .cons (truth?_condition I s q n hps.1 hb.left)
        (truth?_conditions I s q _ hps.2 hb.right)

end

end Predicate

end RowGraph
