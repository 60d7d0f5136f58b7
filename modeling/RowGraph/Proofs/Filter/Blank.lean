import RowGraph.Proofs.Filter.Bound

/-!
# Proofs — Filter — values blanked out

`Filter.blank` takes the values out of a filter.  Keys and structure stay, and of a scalar it stays
whether it is null; only beside `is` and `not`, where the operand is written as a keyword, the two
booleans stay as well.  Two filters that are the same once they are blanked are alike: they differ
in nothing but the values they bind.

**Checking a filter goes on under blanking** (`Filter.predicate_blank`): a blanked filter has the
predicate of the filter, itself blanked; it is refused with the same error, and draws as many
parameters.
-/

namespace RowGraph

/-! ### Blanking -/

/-- What is left of a value: whether it is null. -/
def Value.blank : Value → Value
  | .null => .null
  | _ => .string ""

namespace Filter

/-- What is left of the operand of `is` and `not`: which keyword it is, if it is one. -/
def blankKeyword : Value → Value
  | .bool b => .bool b
  | v => v.blank

mutual

/-- The filter without its values. -/
def blank : List (String × Node) → List (String × Node)
  | [] => []
  | (key, node) :: rest => (key, blankNode node) :: blank rest

/-- The node beside a key of a filter: an object there holds operators. -/
def blankNode : Node → Node
  | .scalar v => .scalar v.blank
  | .list items => .list (blankItems items)
  | .object entries => .object (blankOperators entries)

/-- The items of a list: an object there is a filter. -/
def blankItems : List Node → List Node
  | [] => []
  | item :: rest => blankItem item :: blankItems rest

def blankItem : Node → Node
  | .scalar v => .scalar v.blank
  | .list items => .list (blankItems items)
  | .object entries => .object (blank entries)

def blankOperators : List (String × Node) → List (String × Node)
  | [] => []
  | (key, operand) :: rest => (key, blankOperand key operand) :: blankOperators rest

/-- The node beside an operator's key. -/
def blankOperand (key : String) : Node → Node
  | .scalar v =>
      .scalar (if key = "is" ∨ key = "not" ∨ key = "isNot" then blankKeyword v else v.blank)
  | .list items => .list (blankItems items)
  | .object entries => .object (blank entries)

end

example : blank titled =
    [("or", .list [.object [("title", .scalar (.string ""))],
        .object [("id", .object
          [("between", .list [.scalar (.string ""), .scalar (.string "")])])]]),
      ("title", .object [("ne", .scalar .null)])] := rfl

end Filter

namespace Predicate

mutual

/-- The predicate without its values. -/
def blank : Predicate → Predicate
  | .constant b => .constant b
  | .is column negated k => .is column negated k
  | .compare column c v => .compare column c v.blank
  | .among column negated vs => .among column negated (vs.map Value.blank)
  | .between column negated low high => .between column negated low.blank high.blank
  | .contains column v => .contains column v.blank
  | .contained column vs => .contained column (vs.map Value.blank)
  | .junction c ps => .junction c (blanks ps)

def blanks : List Predicate → List Predicate
  | [] => []
  | p :: ps => p.blank :: blanks ps

end

theorem conjunction_blanks (ps : List Predicate) :
    conjunction (blanks ps) = (conjunction ps).blank := by
  rcases ps with _ | ⟨p, _ | ⟨p', ps⟩⟩ <;> rfl

theorem combination_blanks (c : Connective) (ps : List Predicate) :
    combination c (blanks ps) = (combination c ps).blank := by
  cases ps <;> rfl

theorem membership_blank (column : String) (negated : Bool) (vs : List Value) :
    membership column negated (vs.map Value.blank) = (membership column negated vs).blank := by
  cases vs <;> rfl

end Predicate

/-! ### Checking under blanking -/

namespace Filter

open Predicate

theorem scalar_blankItem (path : String) (node : Node) :
    scalar path (blankItem node) = (scalar path node).map Value.blank := by
  cases node <;> simp [blankItem, scalar, Except.map]

theorem scalars_blankItems (path : String) (i : Nat) (items : List Node) :
    scalars path i (blankItems items) = (scalars path i items).map (List.map Value.blank) := by
  induction items generalizing i with
  | nil => simp [blankItems, scalars, Except.map]
  | cons item items ih =>
      rw [blankItems, scalars, scalars, scalar_blankItem, ih]
      cases scalar (itemPath path i) item with
      | error e => rfl
      | ok v => cases scalars path (i + 1) items <;> rfl

theorem drawScalars_blankItems (path : String) (i : Nat) (items : List Node) :
    drawScalars path i (blankItems items) =
      (drawScalars path i items).map (List.map Value.blank) := by
  induction items generalizing i with
  | nil => simp [blankItems, drawScalars]
  | cons item items ih => simp [blankItems, drawScalars, scalar_blankItem, ih]

theorem comparison_blank (path column : String) (o : Operator) (c : Comparison) (v : Value) :
    comparison path column o c v.blank = (comparison path column o c v).map Predicate.blank := by
  cases v with
  | null => cases c <;> rfl
  | _ => rfl

theorem keywordOf?_blankKeyword (v : Value) : keywordOf? (blankKeyword v) = keywordOf? v := by
  cases v <;> rfl

/-- The keys of the operators that take a keyword. -/
theorem keyword_iff_of_ofKey? {key : String} {o : Operator} (h : Operator.ofKey? key = some o) :
    (key = "is" ∨ key = "not" ∨ key = "isNot") ↔ ∃ negated, o.operand = .keyword negated := by
  rcases eq_key_of_ofKey? h with rfl | ⟨rfl, rfl⟩
  · cases o <;> simp [Operator.key, Operator.operand]
  · simp [Operator.operand]

theorem scalar_blankOperand (path key : String) (node : Node) :
    scalar path (blankOperand key node) = (scalar path node).map fun v =>
      if key = "is" ∨ key = "not" ∨ key = "isNot" then blankKeyword v else v.blank := by
  cases node <;> simp [blankOperand, scalar, Except.map]

/-- What an operator makes of its operand goes on under blanking. -/
theorem operation_blankOperand {key : String} {o : Operator} (h : Operator.ofKey? key = some o)
    (path column : String) (node : Node) :
    operation path column o (blankOperand key node) =
      (operation path column o node).map Predicate.blank := by
  have hs := scalar_blankOperand path key node
  have hk := keyword_iff_of_ofKey? h
  -- the operand kinds one by one; beside a keyword's operator the operand keeps its keyword
  cases ho : o.operand with
  | comparison c =>
      have hn : ¬ (key = "is" ∨ key = "not" ∨ key = "isNot") := by simp [hk, ho]
      simp [operation, ho, hs, hn, comparison_blank]
  | keyword negated =>
      have hy : key = "is" ∨ key = "not" ∨ key = "isNot" := by simp [hk, ho]
      simp only [operation, ho, hs, hy, if_true, Draw.lift_map_bind, Draw.map_bind,
        keywordOf?_blankKeyword]
      congr 1
      funext v
      cases keywordOf? v <;> rfl
  | list negated =>
      cases node with
      | list items => simp [operation, ho, blankOperand, drawScalars_blankItems, membership_blank]
      | scalar v | object entries => simp [operation, ho, blankOperand]
  | range negated =>
      cases node with
      | scalar v | object entries => simp [operation, ho, blankOperand]
      | list items =>
          rcases items with _ | ⟨low, _ | ⟨high, _ | ⟨more, rest⟩⟩⟩
          · simp [operation, ho, blankOperand, blankItems]
          · simp [operation, ho, blankOperand, blankItems]
          · simp [operation, ho, blankOperand, blankItems, scalar_blankItem, Predicate.blank]
          · simp [operation, ho, blankOperand, blankItems]
  | contains =>
      have hn : ¬ (key = "is" ∨ key = "not" ∨ key = "isNot") := by simp [hk, ho]
      simp [operation, ho, hs, hn, Predicate.blank]
  | contained =>
      cases node with
      | list items => simp [operation, ho, blankOperand, scalars_blankItems, Predicate.blank]
      | scalar v | object entries => simp [operation, ho, blankOperand]

theorem columnClause_blankNode (path column : String) (node : Node) :
    columnClause path column (blankNode node) =
      (columnClause path column node).map Predicate.blank := by
  cases node with
  | scalar v => cases v <;> rfl
  | list items => simp [columnClause, blankNode, drawScalars_blankItems, membership_blank]
  | object entries =>
      rcases entries with _ | ⟨⟨key, operand⟩, _ | ⟨more, rest⟩⟩
      · rfl
      · simp only [columnClause, blankNode, blankOperators]
        cases ho : Operator.ofKey? key with
        | none => rfl
        | some o => exact operation_blankOperand ho (childPath path key) column operand
      · rfl

mutual

theorem clauses_blank : ∀ (path : String) (es : List (String × Node)),
    clauses path (blank es) = (clauses path es).map blanks
  | path, [] => by simp [blank, clauses, blanks]
  | path, (key, node) :: rest => by
      simp [blank, clauses, blanks, clause_blankNode (childPath path key) key node,
        clauses_blank path rest]

theorem clause_blankNode : ∀ (path key : String) (node : Node),
    clause path key (blankNode node) = (clause path key node).map Predicate.blank
  | path, key, .list items => by
      have hc := columnClause_blankNode path key (.list items)
      rw [blankNode] at hc ⊢
      rw [clause, clause]
      cases connective? key with
      | none => exact hc
      | some c => simp [children_blankItems path 0 items, combination_blanks]
  | path, key, .scalar v => by
      have hc := columnClause_blankNode path key (.scalar v)
      rw [blankNode] at hc ⊢
      simp only [clause]
      cases connective? key with
      | none => exact hc
      | some c => rfl
  | path, key, .object entries => by
      have hc := columnClause_blankNode path key (.object entries)
      rw [blankNode] at hc ⊢
      simp only [clause]
      cases connective? key with
      | none => exact hc
      | some c => rfl

theorem children_blankItems : ∀ (path : String) (i : Nat) (items : List Node),
    children path i (blankItems items) = (children path i items).map blanks
  | path, i, [] => by simp [blankItems, children, blanks]
  | path, i, .object entries :: rest => by
      simp [blankItems, blankItem, children, blanks, clauses_blank (itemPath path i) entries,
        children_blankItems path (i + 1) rest, conjunction_blanks]
  | path, i, .scalar v :: rest => by simp [blankItems, blankItem, children]
  | path, i, .list items :: rest => by simp [blankItems, blankItem, children]

end

/-- **Checking a filter goes on under blanking.** -/
theorem predicate_blank (f : Filter) : predicate (blank f) = f.predicate.map Predicate.blank := by
  simp [predicate, clauses_blank, conjunction_blanks]

end Filter

end RowGraph
