import RowGraph.Proofs.Filter.Bound

/-!
# Proofs — Filter — the columns a filter speaks of

`Filter.columns` reads the columns a filter speaks of off the tree itself, in the order in which
its SQL has them: every key does that stands beside no combinator.  Membership in an empty list
is a constant, so there no column is left.

* `Predicate.columns`: the columns of a checked filter, in the order of its SQL;
* `Filter.columns_conjunction_of_clauses`: the predicate of a filter has the filter's columns.
-/

namespace RowGraph

namespace Predicate

mutual

/-- The columns of a predicate, in the order of its SQL. -/
def columns : Predicate → List String
  | .constant _ => []
  | .is column _ _ | .compare column _ _ | .among column _ _ | .between column _ _ _
  | .contains column _ | .contained column _ => [column]
  | .junction _ ps => columnsOf ps

def columnsOf : List Predicate → List String
  | [] => []
  | p :: ps => p.columns ++ columnsOf ps

end

theorem columns_conjunction (ps : List Predicate) : (conjunction ps).columns = columnsOf ps := by
  rcases ps with _ | ⟨p, _ | ⟨p', ps⟩⟩
  · rfl
  · simp [conjunction, columnsOf]
  · rfl

theorem columns_combination (c : Connective) (ps : List Predicate) :
    (combination c ps).columns = columnsOf ps := by
  cases ps <;> rfl

theorem columns_membership (column : String) (negated : Bool) (vs : List Value) :
    (membership column negated vs).columns = if vs = [] then [] else [column] := by
  cases vs <;> rfl

end Predicate

namespace Filter

/-- The columns named by a key and its list, unless the list is empty. -/
def columnsList (key : String) (items : List Node) : List String :=
  if items = [] then [] else [key]

/-- The columns named by a key beside an operator and its operand. -/
def columnsOperand (key operator : String) : Node → List String
  | .list items => if operator = "in" ∨ operator = "notIn" then columnsList key items else [key]
  | _ => [key]

mutual

/-- The columns a filter speaks of. -/
def columns : List (String × Node) → List String
  | [] => []
  | (key, node) :: rest => columnsEntry key node ++ columns rest

/-- The columns spoken of by a key and the node beside it. -/
def columnsEntry (key : String) : Node → List String
  | .list items => if key = "and" ∨ key = "or" then columnsChildren items else columnsList key items
  | .object [(operator, operand)] => columnsOperand key operator operand
  | _ => [key]

/-- The columns spoken of by the children of a combinator. -/
def columnsChildren : List Node → List String
  | [] => []
  | .object entries :: rest => columns entries ++ columnsChildren rest
  | _ :: rest => columnsChildren rest

end

example : columns titled = ["title", "id", "title"] := rfl

theorem columnsList_map (key : String) (vs : List Value) :
    columnsList key (vs.map .scalar) = if vs = [] then [] else [key] := by
  cases vs <;> rfl

/-- The keys of the operators that take a list of any length, each of whose items is compared. -/
theorem list_iff_of_ofKey? {key : String} {o : Operator} (h : Operator.ofKey? key = some o) :
    (key = "in" ∨ key = "notIn") ↔ ∃ negated, o.operand = .list negated := by
  rcases eq_key_of_ofKey? h with rfl | ⟨rfl, rfl⟩
  · cases o <;> simp [Operator.key, Operator.operand]
  · simp [Operator.operand]

/-- An operator speaks of the column it stands beside. -/
theorem columns_of_operates {column key : String} {o : Operator} {node : Node} {p : Predicate}
    (hk : Operator.ofKey? key = some o) (h : Operates column o node p) :
    p.columns = columnsOperand column key node := by
  have hin := list_iff_of_ofKey? hk
  cases h with
  | isNull _ | isNotNull _ | compare _ _ | keyword _ _ | contains _ _ => rfl
  | list ho vs =>
      rw [Predicate.columns_membership, columnsOperand, if_pos (hin.mpr ⟨_, ho⟩), columnsList_map]
  | range ho low high | contained ho vs =>
      have hn : ¬ (key = "in" ∨ key = "notIn") := by simp [hin, ho]
      rw [columnsOperand, if_neg hn, Predicate.columns]

/-- A column's clause speaks of the column. -/
theorem columns_of_asks {column : String} {node : Node} {p : Predicate} (h : Asks column node p)
    (hc : connective? column = none) : p.columns = columnsEntry column node := by
  cases h with
  | null | scalar _ => rfl
  | list vs =>
      rw [Predicate.columns_membership, columnsEntry, if_neg (not_or.mpr (ne_of_connective? hc)),
        columnsList_map]
  | operation hk hp => rw [columns_of_operates hk hp, columnsEntry]

mutual

/-- The clauses of a tree speak of the columns the tree speaks of. -/
theorem columns_of_clauses : ∀ {es : List (String × Node)} {ps : List Predicate},
    Clauses es ps → Predicate.columnsOf ps = columns es
  | [], [], .nil => rfl
  | (_, _) :: _, _ :: _, .cons h t => by
      rw [Predicate.columnsOf, columns, columns_of_clause h, columns_of_clauses t]

theorem columns_of_clause : ∀ {key : String} {node : Node} {p : Predicate},
    Clause key node p → p.columns = columnsEntry key node
  | key, .list items, _, .combination hc h => by
      have hk := and_or_of_connective? hc
      rw [Predicate.columns_combination, columnsEntry, if_pos hk, columns_of_children h]
  | _, _, _, .column hc h => columns_of_asks h hc

theorem columns_of_children : ∀ {items : List Node} {ps : List Predicate},
    Children items ps → Predicate.columnsOf ps = columnsChildren items
  | [], [], .nil => rfl
  | .object _ :: _, _ :: _, .cons h t => by
      rw [Predicate.columnsOf, columnsChildren, Predicate.columns_conjunction,
        columns_of_clauses h, columns_of_children t]

end

/-- **The conjunction of a filter's clauses speaks of the columns the filter speaks of.** -/
theorem columns_conjunction_of_clauses {f : Filter} {cs : List Predicate} (h : Clauses f cs) :
    (Predicate.conjunction cs).columns = columns f := by
  rw [Predicate.columns_conjunction, columns_of_clauses h]

end Filter

end RowGraph
