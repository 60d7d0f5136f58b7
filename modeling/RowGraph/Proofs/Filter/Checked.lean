import RowGraph.Filter.Check
import RowGraph.Proofs.Draw

/-!
# Proofs — Filter — what a checked filter is

A filter that is checked is built along the relations below, and draws one parameter for each
value of its predicate (`yields_predicate`).  `Operates` relates the node beside an operator to
its predicate and `Asks` the node beside a column; `Clauses`, `Clause` and `Children` do so for
the entries and lists of a tree.  What is proved of compiled filters is proved along these
relations, without opening the compiler again.
-/

namespace RowGraph

namespace Filter

open Draw

/-! ### Scalars -/

theorem scalar_eq_ok {path : String} {node : Node} {v : Value} (h : scalar path node = .ok v) :
    node = .scalar v := by
  cases node with
  | scalar w => cases h; rfl
  | list _ | object _ => cases h

theorem yields_lift_scalar {path : String} {node : Node} {v : Value} {k : Nat}
    (h : (Draw.lift (scalar path node)).Yields v k) : node = .scalar v ∧ k = 0 := by
  obtain ⟨hv, hk⟩ := yields_lift h
  exact ⟨scalar_eq_ok hv, hk⟩

theorem scalars_eq_ok {path : String} {i : Nat} {items : List Node} {vs : List Value}
    (h : scalars path i items = .ok vs) : items = vs.map .scalar := by
  induction items generalizing i vs with
  | nil => cases h; rfl
  | cons node items ih =>
      obtain ⟨v, hv, h⟩ := bind_eq_ok h
      obtain ⟨ws, hws, h⟩ := bind_eq_ok h
      cases h
      rw [scalar_eq_ok hv, ih hws, List.map_cons]

/-- Scalars are drawn one by one. -/
theorem yields_drawScalars {path : String} {i : Nat} {items : List Node} {vs : List Value}
    {k : Nat} (h : (drawScalars path i items).Yields vs k) :
    items = vs.map .scalar ∧ k = vs.length := by
  induction items generalizing i vs k with
  | nil =>
      obtain ⟨rfl, rfl⟩ := yields_pure h
      exact ⟨rfl, rfl⟩
  | cons node items ih =>
      rw [drawScalars] at h
      obtain ⟨v, i₁, j₁, hv, h₁, rfl⟩ := yields_bind h
      obtain ⟨u, i₂, j₂, hu, h₂, rfl⟩ := yields_bind h₁
      obtain ⟨ws, i₃, j₃, hws, h₃, rfl⟩ := yields_bind h₂
      obtain ⟨rfl, rfl⟩ := yields_lift_scalar hv
      obtain ⟨-, rfl⟩ := yields_yield hu
      obtain ⟨rfl, rfl⟩ := ih hws
      obtain ⟨rfl, rfl⟩ := yields_pure h₃
      exact ⟨rfl, by rw [List.length_cons]; omega⟩

/-! ### Clauses on one column -/

/-- The node beside an operator asks for a clause. -/
inductive Operates (column : String) (o : Operator) : Node → Predicate → Prop where
  | isNull (h : o.operand = .comparison .eq) :
      Operates column o (.scalar .null) (.is column false .null)
  | isNotNull (h : o.operand = .comparison .ne) :
      Operates column o (.scalar .null) (.is column true .null)
  | compare {c : Comparison} (h : o.operand = .comparison c) {v : Value} (hv : v.isNull = false) :
      Operates column o (.scalar v) (.compare column c v)
  | keyword {negated : Bool} (h : o.operand = .keyword negated) {v : Value} {k : Keyword}
      (hk : keywordOf? v = some k) : Operates column o (.scalar v) (.is column negated k)
  | list {negated : Bool} (h : o.operand = .list negated) (vs : List Value) :
      Operates column o (.list (vs.map .scalar)) (.membership column negated vs)
  | range {negated : Bool} (h : o.operand = .range negated) (low high : Value) :
      Operates column o (.list [.scalar low, .scalar high]) (.between column negated low high)
  | contains (h : o.operand = .contains) (v : Value) :
      Operates column o (.scalar v) (.contains column v)
  | contained (h : o.operand = .contained) (vs : List Value) :
      Operates column o (.list (vs.map .scalar)) (.contained column vs)

/-- The node beside a column asks for a clause. -/
inductive Asks (column : String) : Node → Predicate → Prop where
  | null : Asks column (.scalar .null) (.is column false .null)
  | scalar {v : Value} (hv : v.isNull = false) : Asks column (.scalar v) (.compare column .eq v)
  | list (vs : List Value) : Asks column (.list (vs.map .scalar)) (.membership column false vs)
  | operation {key : String} {o : Operator} (hk : Operator.ofKey? key = some o) {node : Node}
      {p : Predicate} (hp : Operates column o node p) : Asks column (.object [(key, node)]) p

theorem size_membership (column : String) (negated : Bool) (vs : List Value) :
    (Predicate.membership column negated vs).size = vs.length := by
  cases vs <;> rfl

theorem yields_comparison {path column : String} {o : Operator} {c : Comparison} {v : Value}
    {p : Predicate} {k : Nat} (ho : o.operand = .comparison c)
    (h : (comparison path column o c v).Yields p k) :
    Operates column o (.scalar v) p ∧ k = p.size := by
  cases v with
  | null =>
      cases c with
      | eq => obtain ⟨rfl, rfl⟩ := yields_pure h; exact ⟨.isNull ho, rfl⟩
      | ne => obtain ⟨rfl, rfl⟩ := yields_pure h; exact ⟨.isNotNull ho, rfl⟩
      | _ => exact absurd h not_yields_refuse
  | _ => obtain ⟨rfl, rfl⟩ := yields_yield h; exact ⟨.compare ho rfl, rfl⟩

theorem yields_operation {path column : String} {o : Operator} {node : Node} {p : Predicate}
    {k : Nat} (h : (operation path column o node).Yields p k) :
    Operates column o node p ∧ k = p.size := by
  -- the operand kinds in the order of `operation`, each with the nodes it takes
  unfold operation at h
  split at h
  case h_1 c ho =>
      obtain ⟨v, i, j, hv, h₁, rfl⟩ := yields_bind h
      obtain ⟨rfl, rfl⟩ := yields_lift_scalar hv
      obtain ⟨hp, rfl⟩ := yields_comparison ho h₁
      exact ⟨hp, Nat.zero_add _⟩
  case h_2 negated ho =>
      obtain ⟨v, i, j, hv, h₁, rfl⟩ := yields_bind h
      obtain ⟨rfl, rfl⟩ := yields_lift_scalar hv
      split at h₁
      case h_1 w hw => obtain ⟨rfl, rfl⟩ := yields_pure h₁; exact ⟨.keyword ho hw, rfl⟩
      case h_2 => exact absurd h₁ not_yields_refuse
  case h_3 negated items ho =>
      obtain ⟨vs, i, j, hvs, h₁, rfl⟩ := yields_bind h
      obtain ⟨rfl, rfl⟩ := yields_drawScalars hvs
      obtain ⟨rfl, rfl⟩ := yields_pure h₁
      exact ⟨.list ho vs, (size_membership column negated vs).symm⟩
  case h_4 => exact absurd h not_yields_refuse
  case h_5 negated low high ho =>
      obtain ⟨l, i, j, hl, h₁, rfl⟩ := yields_bind h
      obtain ⟨u, i', j', hu, h₂, rfl⟩ := yields_bind h₁
      obtain ⟨rfl, rfl⟩ := yields_lift_scalar hl
      obtain ⟨rfl, rfl⟩ := yields_lift_scalar hu
      obtain ⟨rfl, rfl⟩ := yields_yield h₂
      exact ⟨.range ho l u, rfl⟩
  case h_6 => exact absurd h not_yields_refuse
  case h_7 ho =>
      obtain ⟨v, i, j, hv, h₁, rfl⟩ := yields_bind h
      obtain ⟨rfl, rfl⟩ := yields_lift_scalar hv
      obtain ⟨rfl, rfl⟩ := yields_yield h₁
      exact ⟨.contains ho v, rfl⟩
  case h_8 items ho =>
      obtain ⟨vs, i, j, hl, h₁, rfl⟩ := yields_bind h
      obtain ⟨hvs, rfl⟩ := yields_lift hl
      obtain rfl := scalars_eq_ok hvs
      obtain ⟨rfl, rfl⟩ := yields_yield h₁
      exact ⟨.contained ho vs, rfl⟩
  case h_9 => exact absurd h not_yields_refuse

theorem yields_columnClause {path column : String} {node : Node} {p : Predicate} {k : Nat}
    (h : (columnClause path column node).Yields p k) : Asks column node p ∧ k = p.size := by
  unfold columnClause at h
  split at h
  case h_1 => obtain ⟨rfl, rfl⟩ := yields_pure h; exact ⟨.null, rfl⟩
  case h_2 v hv =>
      obtain ⟨rfl, rfl⟩ := yields_yield h
      refine ⟨.scalar ?_, rfl⟩
      cases v with
      | null => exact absurd rfl hv
      | _ => rfl
  case h_3 items =>
      obtain ⟨vs, i, j, hvs, h₁, rfl⟩ := yields_bind h
      obtain ⟨rfl, rfl⟩ := yields_drawScalars hvs
      obtain ⟨rfl, rfl⟩ := yields_pure h₁
      exact ⟨.list vs, (size_membership column false vs).symm⟩
  case h_4 key operand =>
      split at h
      case h_1 o ho =>
          obtain ⟨hp, rfl⟩ := yields_operation h
          exact ⟨.operation ho hp, rfl⟩
      case h_2 => exact absurd h not_yields_refuse
  case h_5 => exact absurd h not_yields_refuse

/-! ### Trees -/

mutual

/-- The entries of a tree ask for clauses, one each. -/
inductive Clauses : List (String × Node) → List Predicate → Prop where
  | nil : Clauses [] []
  | cons {key : String} {node : Node} {rest : List (String × Node)} {p : Predicate}
      {ps : List Predicate} (h : Clause key node p) (t : Clauses rest ps) :
      Clauses ((key, node) :: rest) (p :: ps)

/-- An entry asks for a clause: a combination of its children, or one on its column. -/
inductive Clause : String → Node → Predicate → Prop where
  | combination {key : String} {c : Connective} (hc : connective? key = some c)
      {items : List Node} {ps : List Predicate} (h : Children items ps) :
      Clause key (.list items) (.combination c ps)
  | column {key : String} (hc : connective? key = none) {node : Node} {p : Predicate}
      (h : Asks key node p) : Clause key node p

/-- The children of a combinator ask for the conjunctions of their clauses. -/
inductive Children : List Node → List Predicate → Prop where
  | nil : Children [] []
  | cons {entries : List (String × Node)} {cs : List Predicate} {items : List Node}
      {ps : List Predicate} (h : Clauses entries cs) (t : Children items ps) :
      Children (.object entries :: items) (.conjunction cs :: ps)

end

theorem values_conjunction (ps : List Predicate) :
    (Predicate.conjunction ps).values = Predicate.valuesOf ps := by
  match ps with
  | [] => rfl
  | [p] => exact (List.append_nil _).symm
  | _ :: _ :: _ => rfl

theorem values_combination (c : Connective) (ps : List Predicate) :
    (Predicate.combination c ps).values = Predicate.valuesOf ps := by
  cases ps <;> rfl

mutual

theorem yields_clauses : ∀ {path : String} {es : List (String × Node)} {ps : List Predicate}
    {k : Nat}, (clauses path es).Yields ps k → Clauses es ps ∧ k = (Predicate.valuesOf ps).length
  | path, [], ps, k, h => by
      rw [clauses] at h
      obtain ⟨rfl, rfl⟩ := yields_pure h
      exact ⟨.nil, rfl⟩
  | path, (key, node) :: rest, ps, k, h => by
      rw [clauses] at h
      obtain ⟨p, i, j, hp, h₁, rfl⟩ := yields_bind h
      obtain ⟨qs, i', j', hqs, h₂, rfl⟩ := yields_bind h₁
      obtain ⟨rfl, rfl⟩ := yields_pure h₂
      obtain ⟨cp, rfl⟩ := yields_clause hp
      obtain ⟨cqs, rfl⟩ := yields_clauses hqs
      exact ⟨.cons cp cqs, by rw [Predicate.valuesOf, List.length_append]; rfl⟩

theorem yields_clause : ∀ {path key : String} {node : Node} {p : Predicate} {k : Nat},
    (clause path key node).Yields p k → Clause key node p ∧ k = p.size
  | path, key, .list items, p, k, h => by
      rw [clause] at h
      split at h
      case h_1 c hc =>
          obtain ⟨ps, i, j, hps, h₁, rfl⟩ := yields_bind h
          obtain ⟨rfl, rfl⟩ := yields_pure h₁
          obtain ⟨cps, rfl⟩ := yields_children hps
          exact ⟨.combination hc cps, by rw [Predicate.size, values_combination]; rfl⟩
      case h_2 hc =>
          obtain ⟨hp, rfl⟩ := yields_columnClause h
          exact ⟨.column hc hp, rfl⟩
  | path, key, .scalar v, p, k, h => by
      rw [clause] at h
      · split at h
        case h_1 => exact absurd h not_yields_refuse
        case h_2 hc =>
            obtain ⟨hp, rfl⟩ := yields_columnClause h
            exact ⟨.column hc hp, rfl⟩
      · simp
  | path, key, .object es, p, k, h => by
      rw [clause] at h
      · split at h
        case h_1 => exact absurd h not_yields_refuse
        case h_2 hc =>
            obtain ⟨hp, rfl⟩ := yields_columnClause h
            exact ⟨.column hc hp, rfl⟩
      · simp

theorem yields_children : ∀ {path : String} {i : Nat} {items : List Node}
    {ps : List Predicate} {k : Nat}, (children path i items).Yields ps k →
    Children items ps ∧ k = (Predicate.valuesOf ps).length
  | path, i, [], ps, k, h => by
      rw [children] at h
      obtain ⟨rfl, rfl⟩ := yields_pure h
      exact ⟨.nil, rfl⟩
  | path, i, .object entries :: items, ps, k, h => by
      rw [children] at h
      obtain ⟨cs, i₁, j₁, hcs, h₁, rfl⟩ := yields_bind h
      obtain ⟨qs, i₂, j₂, hqs, h₂, rfl⟩ := yields_bind h₁
      obtain ⟨rfl, rfl⟩ := yields_pure h₂
      obtain ⟨ccs, rfl⟩ := yields_clauses hcs
      obtain ⟨cqs, rfl⟩ := yields_children hqs
      refine ⟨.cons ccs cqs, ?_⟩
      rw [Predicate.valuesOf, values_conjunction, List.length_append]
      rfl
  | path, i, .scalar v :: items, ps, k, h => by
      rw [children] at h
      · exact absurd h not_yields_refuse
      · simp
  | path, i, .list ns :: items, ps, k, h => by
      rw [children] at h
      · exact absurd h not_yields_refuse
      · simp

end

theorem yields_predicate {f : Filter} {p : Predicate} {k : Nat} (h : f.predicate.Yields p k) :
    ∃ cs, Clauses f cs ∧ p = Predicate.conjunction cs ∧ k = p.size := by
  obtain ⟨cs, i, j, hcs, h₁, rfl⟩ := yields_bind h
  obtain ⟨rfl, rfl⟩ := yields_pure h₁
  obtain ⟨ccs, rfl⟩ := yields_clauses hcs
  exact ⟨cs, ccs, rfl, by rw [Predicate.size, values_conjunction]; rfl⟩

end Filter

end RowGraph
