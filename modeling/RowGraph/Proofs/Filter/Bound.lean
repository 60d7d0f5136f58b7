import RowGraph.Proofs.Filter.Written
import RowGraph.Proofs.Sql.Numbering

/-!
# Proofs — Filter — the values a filter binds

`Filter.bound` reads the values a filter binds off the tree itself, depth first and left to right.
Every scalar is bound, with these exceptions: null under plain equality, `eq` or `ne` and the
operand of `is` or `not` are written as keywords, and the operand of `contained` is bound as one
array.

* `Predicate.carries_fragment`: the SQL of a predicate carries the predicate's values.
* `Filter.values_of_clauses`: the clauses a filter asks for have the values the filter binds.
* `Filter.carries_compile`: so **a filter that compiles carries the values it binds**, and the
  next parameter is the one after them.
-/

namespace RowGraph

/-! ### The values of a tree -/

namespace Filter

/-- The scalar a node is, if it is one. -/
def Node.scalar? : Node → Option Value
  | .scalar v => some v
  | _ => none

/-- A scalar compared for equality; null is written as a keyword. -/
def boundScalar (v : Value) : List Value := if v.isNull then [] else [v]

/-- The values bound for the node beside an operator's key. -/
def boundOperand (key : String) : Node → List Value
  | .scalar v =>
      if key = "is" ∨ key = "not" ∨ key = "isNot" then []
      else if key = "eq" ∨ key = "ne" then boundScalar v
      else [v]
  | .list items =>
      if key = "contained" then [.array (items.filterMap Node.scalar?)]
      else items.filterMap Node.scalar?
  | .object _ => []

mutual

/-- The values a filter binds. -/
def bound : List (String × Node) → List Value
  | [] => []
  | (key, node) :: rest => boundEntry key node ++ bound rest

/-- The values bound for the node beside a key. -/
def boundEntry (key : String) : Node → List Value
  | .scalar v => boundScalar v
  | .list items =>
      if key = "and" ∨ key = "or" then boundChildren items else items.filterMap Node.scalar?
  | .object [(operator, operand)] => boundOperand operator operand
  | .object _ => []

/-- The values bound for the children of a combinator. -/
def boundChildren : List Node → List Value
  | [] => []
  | .object entries :: rest => bound entries ++ boundChildren rest
  | _ :: rest => boundChildren rest

end

/-- Titled `A` or with an id in a range, but not without a title. -/
def titled : Filter :=
  [("or", .list [.object [("title", .scalar (.string "A"))],
      .object [("id", .object [("between", .list [.scalar (.int64 1), .scalar (.int64 9)])])]]),
    ("title", .object [("ne", .scalar .null)])]

example : bound titled = [.string "A", .int64 1, .int64 9] := rfl

end Filter

/-! ### The fragment of a predicate -/

namespace Predicate

open Sql Fragment

mutual

/-- The SQL of a predicate carries its values. -/
theorem carries_fragment (q : Option String) :
    ∀ (p : Predicate) (n : Nat), (p.fragment q n).Carries n p.values
  | .constant _, n => carries_token _ n
  | .is column _ _, n =>
      ((carries_column q column n).nil_append (carries_token _ n)).nil_append (carries_token _ n)
  | .compare column _ v, n =>
      ((carries_column q column n).nil_append (carries_token _ n)).nil_append (carries_param n v)
  | .among column _ vs, n =>
      ((carries_column q column n).nil_append (carries_token _ n)).nil_append
        ((carryAll_paramsFrom n vs).join .comma).parens
  | .between column negated low high, n => by
      let t : Token := if negated then .notBetween else .between
      have hl : (Fragment.column q column ++ token t ++ param n low).Carries n [low] :=
        ((carries_column q column n).nil_append (carries_token t n)).nil_append
          (carries_param n low)
      exact (hl.append_nil (carries_token .and _)).append (carries_param (n + 1) high)
  | .contains column v, n => by
      have hu : IsWord "UNNEST".toList := by decide
      exact ((carries_param n v).append_nil (carries_token .isIn _)).append_nil
        ((carries_column q column _).call hu)
  | .contained column vs, n => by
      have hu : IsWord "UNNEST".toList := by decide
      exact ((carries_column q column n).nil_append (carries_token .isIn n)).nil_append
        ((carries_param n (.array vs)).call hu)
  | .junction c ps, n => (carryAll_groups q ps n).join c.token

theorem carryAll_groups (q : Option String) :
    ∀ (ps : List Predicate) (n : Nat), CarryAll (groups q ps n) n (valuesOf ps)
  | [], n => carryAll_nil n
  | p :: ps, n => (carryAll_groups q ps (n + p.size)).cons (carries_fragment q p n).parens

end

end Predicate

/-! ### The clauses of a filter -/

namespace Filter

theorem filterMap_scalar? (vs : List Value) : (vs.map Node.scalar).filterMap Node.scalar? = vs := by
  rw [List.filterMap_map]
  exact List.filterMap_some

/-- A key names its operator; only `isNot` names one with another key. -/
theorem eq_key_of_ofKey? {key : String} {o : Operator} (h : Operator.ofKey? key = some o) :
    key = o.key ∨ key = "isNot" ∧ o = .isNot := by
  unfold Operator.ofKey? at h
  split at h
  case isTrue hk => exact .inr ⟨hk, (Option.some.inj h).symm⟩
  case isFalse =>
      have ho : o.key == key := List.find?_some (p := fun o : Operator => o.key == key) h
      exact .inl (beq_iff_eq.mp ho).symm

theorem boundOperand_key {key : String} {o : Operator} (h : Operator.ofKey? key = some o)
    (node : Node) : boundOperand key node = boundOperand o.key node := by
  rcases eq_key_of_ofKey? h with rfl | ⟨rfl, rfl⟩
  · rfl
  · cases node <;> rfl

theorem boundScalar_of_not_null {v : Value} (hv : v.isNull = false) : boundScalar v = [v] := by
  rw [boundScalar, hv]
  rfl

theorem values_membership (column : String) (negated : Bool) (vs : List Value) :
    (Predicate.membership column negated vs).values = vs := by
  cases vs <;> rfl

/-- An operator binds its operand as its key says. -/
theorem values_of_operates {column : String} {o : Operator} {node : Node} {p : Predicate}
    (h : Operates column o node p) : p.values = boundOperand o.key node := by
  -- the operand kind of `h` leaves the operators that have it
  cases h with
  | isNull ho | isNotNull ho => cases o <;> cases ho; rfl
  | compare ho hv =>
      have hb := boundScalar_of_not_null hv
      cases o <;> cases ho
      · exact hb.symm
      · exact hb.symm
      all_goals rfl
  | @keyword negated ho v k _ => cases o <;> cases ho <;> rfl
  | @list negated ho vs =>
      rw [values_membership]
      have hs := filterMap_scalar? vs
      cases o <;> cases ho <;> exact hs.symm
  | range ho low high => cases o <;> cases ho <;> rfl
  | contains ho v => cases o <;> cases ho; rfl
  | contained ho vs =>
      have hs := congrArg (fun ws => [Value.array ws]) (filterMap_scalar? vs)
      cases o <;> cases ho
      exact hs.symm

/-- The keys that combine are `and` and `or`. -/
theorem key_of_connective? {key : String} {c : Connective} (h : connective? key = some c) :
    key = "and" ∧ c = .and ∨ key = "or" ∧ c = .or := by
  unfold connective? at h
  split at h
  case isTrue hk => exact .inl ⟨hk, (Option.some.inj h).symm⟩
  case isFalse =>
      split at h
      case isTrue hk => exact .inr ⟨hk, (Option.some.inj h).symm⟩
      case isFalse => cases h

theorem and_or_of_connective? {key : String} {c : Connective} (h : connective? key = some c) :
    key = "and" ∨ key = "or" :=
  (key_of_connective? h).imp And.left And.left

theorem ne_of_connective? {key : String} (h : connective? key = none) :
    key ≠ "and" ∧ key ≠ "or" := by
  refine ⟨?_, ?_⟩
  · rintro rfl
    cases h
  · rintro rfl
    cases h

/-- A column's clause has the values of the node beside the column. -/
theorem values_of_asks {column : String} {node : Node} {p : Predicate} (h : Asks column node p)
    (hc : connective? column = none) : p.values = boundEntry column node := by
  cases h with
  | null => rfl
  | scalar hv => exact (boundScalar_of_not_null hv).symm
  | list vs =>
      rw [values_membership, boundEntry, if_neg (not_or.mpr (ne_of_connective? hc)),
        filterMap_scalar?]
  | operation hk hp =>
      rw [values_of_operates hp, boundEntry, boundOperand_key hk]

mutual

/-- The clauses of a tree have the values the tree binds. -/
theorem values_of_clauses : ∀ {es : List (String × Node)} {ps : List Predicate},
    Clauses es ps → Predicate.valuesOf ps = bound es
  | [], [], .nil => rfl
  | (_, _) :: _, _ :: _, .cons h t => by
      rw [Predicate.valuesOf, bound, values_of_clause h, values_of_clauses t]

theorem values_of_clause : ∀ {key : String} {node : Node} {p : Predicate},
    Clause key node p → p.values = boundEntry key node
  | key, .list items, _, .combination hc h => by
      have hk := and_or_of_connective? hc
      rw [values_combination, boundEntry, if_pos hk, values_of_children h]
  | _, _, _, .column hc h => values_of_asks h hc

theorem values_of_children : ∀ {items : List Node} {ps : List Predicate},
    Children items ps → Predicate.valuesOf ps = boundChildren items
  | [], [], .nil => rfl
  | .object _ :: _, _ :: _, .cons h t => by
      rw [Predicate.valuesOf, boundChildren, values_conjunction, values_of_clauses h,
        values_of_children t]

end

open Sql in
/-- **A filter that compiles carries the values it binds**, and the next parameter is the one
after them. -/
theorem carries_compile {f : Filter} {q : Option String} {n m : Nat} {g : Fragment}
    (h : f.compile q n = (.ok g, m)) : g.Carries n (bound f) ∧ m = n + (bound f).length := by
  obtain ⟨cs, hcs, rfl, rfl⟩ := compile_eq_ok h
  have hv : (Predicate.conjunction cs).values = bound f := by
    rw [values_conjunction, values_of_clauses hcs]
  rw [← hv]
  exact ⟨Predicate.carries_fragment q _ n, rfl⟩

end Filter

end RowGraph
