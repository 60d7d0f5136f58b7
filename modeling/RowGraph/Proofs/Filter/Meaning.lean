import RowGraph.Proofs.Filter.Reading

/-!
# Proofs — Filter — what a filter means

`Filter.meaning?` evaluates a filter on a row as it is documented, straight from the tree: the
entries of a tree hold together, `and` and `or` put their children together, an empty tree and an
empty combinator hold always, and every other key is a column with a scalar, a list or the one
operator of an object beside it.

**Compiling a filter preserves its meaning** (`Filter.truth_compile`): read back and evaluated
with its own bindings, the text of a filter has the truth the filter has, on every row and for
every interpretation of the comparisons.
-/

namespace RowGraph.Filter

open Sql

/-! ### Meaning -/

section

variable (I : Interpretation) (row : String → Value)

/-- `column <key> v`. -/
def scalarMeaning? (x v : Value) : String → Option Truth
  | "eq" => some (if v.isNull then .ofBool x.isNull else I.compare .eq x v)
  | "ne" => some (if v.isNull then .ofBool (!x.isNull) else I.compare .ne x v)
  | "gt" => some (I.compare .gt x v)
  | "gte" => some (I.compare .ge x v)
  | "lt" => some (I.compare .lt x v)
  | "lte" => some (I.compare .le x v)
  | "like" => some (I.compare .like x v)
  | "notLike" => some (I.compare .notLike x v)
  | "is" => (keywordOf? v).map fun k => .ofBool (isKeyword k x)
  | "not" => (keywordOf? v).map fun k => .ofBool (!isKeyword k x)
  | "isNot" => (keywordOf? v).map fun k => .ofBool (!isKeyword k x)
  | "contains" => some (I.among v (itemsOf x))
  | _ => none

/-- `column <key> (vs)`. -/
def listMeaning? (x : Value) (vs : List Value) : String → Option Truth
  | "in" => some (I.among x vs)
  | "notIn" => some (I.among x vs).not
  | "contained" => some (I.among x vs)
  | "between" => match vs with
      | [low, high] => some (I.between x low high)
      | _ => none
  | "notBetween" => match vs with
      | [low, high] => some (I.between x low high).not
      | _ => none
  | _ => none

/-- The truth of an operator on a column's value and the node beside its key. -/
def operatorMeaning? (x : Value) (key : String) : Node → Option Truth
  | .scalar v => scalarMeaning? I x v key
  | .list items => (items.mapM Node.scalar?).bind fun vs => listMeaning? I x vs key
  | .object _ => none

mutual

/-- The truth of a filter on a row. -/
def meaning? : List (String × Node) → Option Truth
  | [] => some .true
  | (key, node) :: rest => do
      let t ← entryMeaning? key node
      let ts ← meaning? rest
      return t.and ts

/-- The truth of an entry: of a combinator, or of a question to a column. -/
def entryMeaning? (key : String) : Node → Option Truth
  | .scalar v =>
      if v.isNull then some (.ofBool (row key).isNull) else some (I.compare .eq (row key) v)
  | .list items =>
      if key = "and" then (childrenMeaning? items).map .all
      else if key = "or" then
        (childrenMeaning? items).map fun ts => if ts = [] then .true else .any ts
      else (items.mapM Node.scalar?).map (I.among (row key))
  | .object [(operator, operand)] => operatorMeaning? I (row key) operator operand
  | .object _ => none

/-- The truths of a combinator's children. -/
def childrenMeaning? : List Node → Option (List Truth)
  | [] => some []
  | .object entries :: rest => do
      let t ← meaning? entries
      let ts ← childrenMeaning? rest
      return t :: ts
  | _ :: _ => none

end

end

/-! ### Truth of the clauses -/

section

variable {I : Interpretation} {row : String → Value}

theorem truth_conjunction (ps : List Predicate) :
    (Predicate.conjunction ps).truth I row = .all (Predicate.truths I row ps) := by
  rcases ps with _ | ⟨p, _ | ⟨p', ps⟩⟩
  · rfl
  · exact (Truth.and_true _).symm
  · rfl

theorem truth_combination (c : Connective) (ps : List Predicate) :
    (Predicate.combination c ps).truth I row =
      if Predicate.truths I row ps = [] then .true else c.fold (Predicate.truths I row ps) := by
  cases ps <;> rfl

theorem truth_membership (column : String) (negated : Bool) (vs : List Value) :
    (Predicate.membership column negated vs).truth I row =
      (I.among (row column) vs).negateIf negated := by
  cases vs with
  | nil => cases negated <;> rfl
  | cons v vs => rfl

theorem negateIf_ofBool (negated b : Bool) :
    (Truth.ofBool b).negateIf negated = .ofBool (if negated then !b else b) := by
  cases negated <;> cases b <;> rfl

theorem mapM_scalar? (vs : List Value) : (vs.map Node.scalar).mapM Node.scalar? = some vs := by
  induction vs with
  | nil => rfl
  | cons v vs ih => simp [Node.scalar?, ih]

theorem operatorMeaning?_key {key : String} {o : Operator} (h : Operator.ofKey? key = some o)
    (x : Value) (node : Node) :
    operatorMeaning? I x key node = operatorMeaning? I x o.key node := by
  rcases eq_key_of_ofKey? h with rfl | ⟨rfl, rfl⟩
  · rfl
  · cases node <;> rfl

/-- An operator asks what its key says. -/
theorem meaning_of_operates {column : String} {o : Operator} {node : Node} {p : Predicate}
    (h : Operates column o node p) :
    operatorMeaning? I (row column) o.key node = some (p.truth I row) := by
  cases h with
  | isNull ho => cases o <;> cases ho; rfl
  | isNotNull ho =>
      have hn := congrArg some (negateIf_ofBool true (row column).isNull).symm
      cases o <;> cases ho
      exact hn
  | @compare c ho v hv =>
      -- only `eq` and `ne` look for null
      have he : ∀ {t u : Truth}, some (if v.isNull then t else u) = some u := by simp [hv]
      cases o <;> cases ho
      · exact he
      · exact he
      all_goals rfl
  | @keyword negated ho v k hk =>
      have hb := congrArg some (negateIf_ofBool negated (isKeyword k (row column))).symm
      cases o <;> cases ho
      · exact (congrArg (Option.map _) hk).trans hb
      · exact (congrArg (Option.map _) hk).trans hb
  | @list negated ho vs =>
      rw [truth_membership, operatorMeaning?, mapM_scalar?]
      cases o <;> cases ho <;> rfl
  | range ho low high => cases o <;> cases ho <;> rfl
  | contains ho v => cases o <;> cases ho; rfl
  | contained ho vs =>
      rw [operatorMeaning?, mapM_scalar?]
      cases o <;> cases ho
      rfl

theorem meaning_of_asks {column : String} {node : Node} {p : Predicate} (h : Asks column node p)
    (hc : connective? column = none) :
    entryMeaning? I row column node = some (p.truth I row) := by
  cases h with
  | null => rfl
  | scalar hv => simp [entryMeaning?, hv, Predicate.truth]
  | list vs =>
      obtain ⟨hand, hor⟩ := ne_of_connective? hc
      rw [entryMeaning?, if_neg hand, if_neg hor, mapM_scalar?, truth_membership]
      rfl
  | operation hk hp => rw [entryMeaning?, operatorMeaning?_key hk, meaning_of_operates hp]

mutual

theorem meaning_of_clauses : ∀ {es : List (String × Node)} {ps : List Predicate}, Clauses es ps →
    meaning? I row es = some (.all (Predicate.truths I row ps))
  | [], [], .nil => rfl
  | (_, _) :: _, _ :: _, .cons h t => by
      simp [meaning?, meaning_of_clause h, meaning_of_clauses t, Predicate.truths, Truth.all]

theorem meaning_of_clause : ∀ {key : String} {node : Node} {p : Predicate}, Clause key node p →
    entryMeaning? I row key node = some (p.truth I row)
  | _, _, _, @Clause.combination _ _ hc _ ps h => by
      rw [entryMeaning?, meaning_of_children h, truth_combination]
      rcases key_of_connective? hc with ⟨rfl, rfl⟩ | ⟨rfl, rfl⟩
      · by_cases ht : Predicate.truths I row ps = []
        · simp [ht, Truth.all]
        · simp [ht, Connective.fold]
      · rfl
  | _, _, _, .column hc h => meaning_of_asks h hc

theorem meaning_of_children : ∀ {items : List Node} {ps : List Predicate}, Children items ps →
    childrenMeaning? I row items = some (Predicate.truths I row ps)
  | [], [], .nil => rfl
  | .object _ :: _, _ :: _, .cons h t => by
      simp [childrenMeaning?, meaning_of_clauses h, meaning_of_children t, Predicate.truths,
        truth_conjunction]

end

end

/-! ### Clauses are proper -/

theorem proper_membership (column : String) (negated : Bool) (vs : List Value) :
    (Predicate.membership column negated vs).Proper := by
  cases vs with
  | nil => trivial
  | cons v vs => simp [Predicate.membership, Predicate.Proper]

theorem proper_conjunction {ps : List Predicate} (h : Predicate.AllProper ps) :
    (Predicate.conjunction ps).Proper := by
  rcases ps with _ | ⟨p, _ | ⟨p', ps⟩⟩
  · trivial
  · exact h.1
  · exact ⟨by simp, h⟩

theorem proper_combination (c : Connective) {ps : List Predicate} (h : Predicate.AllProper ps) :
    (Predicate.combination c ps).Proper := by
  cases ps with
  | nil => trivial
  | cons p ps => exact ⟨by simp, h⟩

theorem proper_of_operates {column : String} {o : Operator} {node : Node} {p : Predicate}
    (h : Operates column o node p) : p.Proper := by
  cases h with
  | list ho vs => exact proper_membership column _ vs
  | _ => trivial

theorem proper_of_asks {column : String} {node : Node} {p : Predicate} (h : Asks column node p) :
    p.Proper := by
  cases h with
  | null | scalar _ => trivial
  | list vs => exact proper_membership column false vs
  | operation hk hp => exact proper_of_operates hp

mutual

theorem proper_of_clauses : ∀ {es : List (String × Node)} {ps : List Predicate}, Clauses es ps →
    Predicate.AllProper ps
  | [], [], .nil => trivial
  | (_, _) :: _, _ :: _, .cons h t => ⟨proper_of_clause h, proper_of_clauses t⟩

theorem proper_of_clause : ∀ {key : String} {node : Node} {p : Predicate}, Clause key node p →
    p.Proper
  | _, .list _, _, .combination (c := c) _ h => proper_combination c (proper_of_children h)
  | _, _, _, .column _ h => proper_of_asks h

theorem proper_of_children : ∀ {items : List Node} {ps : List Predicate}, Children items ps →
    Predicate.AllProper ps
  | [], [], .nil => trivial
  | .object _ :: _, _ :: _, .cons h t =>
      ⟨proper_conjunction (proper_of_clauses h), proper_of_children t⟩

end

/-! ### Compiling -/

/-- **Compiling a filter preserves its meaning.**  The text of a filter that compiles is a
condition.  Evaluated on a row, whatever the comparisons are, with the bindings of the filter, the
condition has a truth, and that is the meaning of the filter. -/
theorem truth_compile {f : Filter} {q : Option String} {n m : Nat} {g : Fragment}
    (h : f.compile q n = (.ok g, m)) (I : Interpretation)
    (columns : Option String → String → Value) :
    ∃ c t, Condition.read g.text = some c ∧ c.truth? I ⟨columns, g.params⟩ = some t ∧
      meaning? I (columns q) f = some t := by
  obtain ⟨cs, hcs, rfl, -⟩ := compile_eq_ok h
  -- the text and the tree meet in the predicate's truth
  have hp := proper_conjunction (proper_of_clauses hcs)
  have hb := (Predicate.conjunction cs).carries_fragment q n
  refine ⟨_, _, Predicate.read_text_fragment q n hp, Predicate.truth?_condition I _ q n hp ?_, ?_⟩
  · rw [hb.params]
    exact Params.binds_numbered n _
  · rw [meaning_of_clauses hcs, truth_conjunction]

/-- Equality of the warehouse, and integers in their order. -/
def integers : Interpretation
  | .eq, x, y => .ofBool (x.equal y)
  | .ge, .int64 a, .int64 b => .ofBool (b ≤ a)
  | .le, .int64 a, .int64 b => .ofBool (a ≤ b)
  | _, _, _ => .unknown

/-- The fifth book. -/
def fifth : Option String → String → Value
  | some "book", "id" => .int64 5
  | some "book", "title" => .string "B"
  | _, _ => .null

theorem truth_compile_titled :
    ∃ g m c, titled.compile (some "book") 2 = (.ok g, m) ∧ Condition.read g.text = some c ∧
      c.truth? integers ⟨fifth, g.params⟩ = some .true := by
  obtain ⟨c, t, hc, ht, hm⟩ :=
    truth_compile (f := titled) (q := some "book") (n := 2) rfl integers fifth
  have htrue : meaning? integers (fifth (some "book")) titled = some .true := rfl
  rw [htrue] at hm
  cases hm
  exact ⟨_, _, c, rfl, hc, ht⟩

end RowGraph.Filter
