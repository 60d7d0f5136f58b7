import RowGraph.Proofs.Filter.Meaning

/-!
# Proofs — Filter — filters put together

The path to a node plays a part in nothing but the reason of a refusal: where there is a result, it
is the same wherever a filter stands (`Filter.value?_clauses`).  So a child has the predicate that
it has standing alone, and **filters put together with `and` have the combination of their
predicates**, each as a whole (`Filter.value?_and`), and mean all of what they mean
(`Filter.meaning?_and`).
-/

namespace RowGraph

/-! ### Results without reasons -/

theorem toOption_bind {ε α β : Type} (x : Except ε α) (f : α → Except ε β) :
    (x >>= f).toOption = x.toOption.bind fun a => (f a).toOption := by
  cases x <;> rfl

namespace Draw

variable {α β : Type}

/-- The result, if there is one. -/
def value? (x : Draw α) : Option α := x.result.toOption

@[simp] theorem value?_pure (a : α) : (pure a : Draw α).value? = some a := rfl

@[simp] theorem value?_lift (x : Except Error α) : (lift x).value? = x.toOption := rfl

@[simp] theorem value?_yield (n : Nat) (a : α) : (yield n a).value? = some a := rfl

@[simp] theorem value?_refuse (e : Error) : (refuse e : Draw α).value? = none := rfl

@[simp] theorem value?_bind (x : Draw α) (f : α → Draw β) :
    (x >>= f).value? = x.value?.bind fun a => (f a).value? := by
  rw [value?, result_bind, toOption_bind]
  rfl

theorem value?_eq_some {x : Draw α} {a : α} : x.value? = some a ↔ x.result = .ok a := by
  rw [value?]
  cases x.result <;> simp [Except.toOption]

end Draw

namespace Filter

/-! ### Wherever a filter stands -/

@[simp] theorem toOption_scalar (path : String) (node : Node) :
    (scalar path node).toOption = node.scalar? := by
  cases node <;> rfl

@[simp] theorem toOption_scalars (path : String) (i : Nat) (items : List Node) :
    (scalars path i items).toOption = items.mapM Node.scalar? := by
  induction items generalizing i with
  | nil => rfl
  | cons node items ih =>
      simp only [scalars, toOption_bind, toOption_scalar, ih, List.mapM_cons]
      rfl

@[simp] theorem value?_drawScalars (path : String) (i : Nat) (items : List Node) :
    (drawScalars path i items).value? = items.mapM Node.scalar? := by
  induction items generalizing i with
  | nil => rfl
  | cons node items ih => simp [drawScalars, ih]

theorem value?_comparison (path path' column : String) (o : Operator) (c : Comparison) (v : Value) :
    (comparison path column o c v).value? = (comparison path' column o c v).value? := by
  cases v with
  | null => cases c <;> rfl
  | _ => rfl

theorem value?_operation (path path' column : String) (o : Operator) (node : Node) :
    (operation path column o node).value? = (operation path' column o node).value? := by
  cases ho : o.operand with
  | comparison c =>
      simp [operation, ho, value?_comparison path path' column o c]
  | keyword negated =>
      simp only [operation, ho, Draw.value?_bind, Draw.value?_lift, toOption_scalar]
      congr 1
      funext v
      cases keywordOf? v <;> rfl
  | list negated => cases node <;> simp [operation, ho]
  | range negated =>
      rcases node with v | (_ | ⟨low, _ | ⟨high, _ | ⟨x, items⟩⟩⟩) | es <;>
        simp [operation, ho]
  | contains => simp [operation, ho]
  | contained => cases node <;> simp [operation, ho]

theorem value?_columnClause (path path' column : String) (node : Node) :
    (columnClause path column node).value? = (columnClause path' column node).value? := by
  rcases node with v | items | es
  · cases v <;> rfl
  · simp [columnClause]
  · rcases es with _ | ⟨⟨key, operand⟩, _ | ⟨e, es⟩⟩
    · rfl
    · simp only [columnClause]
      cases Operator.ofKey? key with
      | some o => exact value?_operation _ _ column o operand
      | none => rfl
    · rfl

mutual

/-- A filter has the same clauses wherever it stands. -/
theorem value?_clauses (path path' : String) : ∀ es : List (String × Node),
    (clauses path es).value? = (clauses path' es).value?
  | [] => rfl
  | (key, node) :: rest => by
      simp [clauses, value?_clause (childPath path key) (childPath path' key) key node,
        value?_clauses path path' rest]

theorem value?_clause (path path' key : String) : ∀ node : Node,
    (clause path key node).value? = (clause path' key node).value?
  | .list items => by
      rw [clause, clause]
      cases connective? key with
      | some c => simp [value?_children path path' 0 items]
      | none => exact value?_columnClause path path' key (.list items)
  | .scalar v => by
      simp only [clause]
      cases connective? key with
      | some c => rfl
      | none => exact value?_columnClause path path' key (.scalar v)
  | .object entries => by
      simp only [clause]
      cases connective? key with
      | some c => rfl
      | none => exact value?_columnClause path path' key (.object entries)

theorem value?_children (path path' : String) : ∀ (i : Nat) (items : List Node),
    (children path i items).value? = (children path' i items).value?
  | _, [] => rfl
  | i, .object entries :: rest => by
      simp [children, value?_clauses (itemPath path i) (itemPath path' i) entries,
        value?_children path path' (i + 1) rest]
  | _, .scalar _ :: _ => by simp [children]
  | _, .list _ :: _ => by simp [children]

end

/-! ### Put together -/

theorem value?_predicate (path : String) (f : Filter) :
    f.predicate.value? = (clauses path f).value?.map .conjunction := by
  rw [predicate, Draw.value?_bind, value?_clauses "" path]
  cases (clauses path f).value? <;> rfl

theorem value?_filters (path : String) (i : Nat) (fs : List Filter) :
    (children path i (fs.map .object)).value? = fs.mapM fun f => f.predicate.value? := by
  induction fs generalizing i with
  | nil => rfl
  | cons f fs ih =>
      rw [List.map_cons, children, List.mapM_cons, value?_predicate (itemPath path i)]
      simp only [Draw.value?_bind, Draw.value?_pure, ih]
      cases (clauses (itemPath path i) f).value? <;> rfl

/-- **Filters put together with `and`** have the combination of their predicates. -/
theorem value?_and (fs : List Filter) :
    (Filter.and [] fs).predicate.value? =
      (fs.mapM fun f => (predicate f).value?).map (.combination .and) := by
  have hc : connective? "and" = some .and := rfl
  rw [value?_predicate "", Filter.and, insert, List.nil_append, clauses, clause, hc]
  simp only [Draw.value?_bind, Draw.value?_pure, value?_filters]
  cases fs.mapM fun f => (predicate f).value? <;> rfl

section

variable (I : Sql.Interpretation) (row : String → Value)

theorem meaning?_filters (fs : List Filter) :
    childrenMeaning? I row (fs.map .object) = fs.mapM (meaning? I row) := by
  induction fs with
  | nil => rfl
  | cons f fs ih => rw [List.map_cons, childrenMeaning?, ih, List.mapM_cons]

theorem meaning?_and (fs : List Filter) :
    meaning? I row (Filter.and [] fs) = (fs.mapM (meaning? I row)).map Sql.Truth.all := by
  rw [Filter.and, insert, List.nil_append, meaning?, entryMeaning?, if_pos rfl, meaning?_filters]
  cases fs.mapM (meaning? I row) with
  | none => rfl
  | some ts => exact congrArg some (Sql.Truth.and_true _)

end

/-! ### A column and a value -/

section

variable {column : String} {v : Value}

theorem Node.ofValue_of_ne_array (ha : ∀ vs, v ≠ .array vs) : Node.ofValue v = .scalar v := by
  cases v with
  | array vs => exact absurd rfl (ha vs)
  | _ => rfl

/-- A key that combines filters takes no value. -/
theorem value?_eq_of_connective (ha : ∀ vs, v ≠ .array vs) {c : Connective}
    (hc : connective? column = some c) : (Filter.eq [] column v).predicate.value? = none := by
  simp only [Filter.eq, insert, List.nil_append, predicate, clauses, clause, hc,
    Node.ofValue_of_ne_array ha]
  rfl

variable (hn : v.isNull = false) (ha : ∀ vs, v ≠ .array vs)
include hn ha

/-- A column is compared with a value that is neither null nor an array. -/
theorem value?_eq (hc : connective? column = none) :
    (Filter.eq [] column v).predicate.value? = some (.compare column .eq v) := by
  simp only [Filter.eq, insert, List.nil_append, predicate, clauses, clause, hc,
    Node.ofValue_of_ne_array ha]
  cases v with
  | null => cases hn
  | _ => rfl

theorem meaning?_eq (I : Sql.Interpretation) (row : String → Value) :
    meaning? I row (Filter.eq [] column v) = some (I.compare .eq (row column) v) := by
  simp [Filter.eq, insert, meaning?, entryMeaning?, Node.ofValue_of_ne_array ha, hn,
    Sql.Truth.and_true]

end

end Filter

end RowGraph
