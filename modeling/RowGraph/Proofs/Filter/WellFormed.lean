import RowGraph.Find.Join
import RowGraph.Proofs.Filter.Bound

/-!
# Proofs — Filter — well-formed filters

`Filter.wellFormed` says which trees are filters: combinators have lists of filters, a column has a
scalar, a list of scalars, or an object with one operator whose operand fits it (`Operator.fits`).

**A tree has a predicate exactly if it is a filter** (`Filter.checks_predicate`), and where it is
refused, the reason is in the filter (`Error.isOfFilter`).
-/

namespace RowGraph

/-! ### The shapes of filters -/

namespace Filter

def Node.isScalar : Node → Bool
  | .scalar _ => true
  | _ => false

/-- Null, true and false have keywords. -/
def Node.isKeyword : Node → Bool
  | .scalar .null | .scalar (.bool _) => true
  | _ => false

def Node.isNonNull : Node → Bool
  | .scalar v => !v.isNull
  | _ => false

/-- A list of scalars. -/
def Node.isList : Node → Bool
  | .list items => items.all isScalar
  | _ => false

/-- A list of two scalars. -/
def Node.isPair : Node → Bool
  | .list [low, high] => low.isScalar && high.isScalar
  | _ => false

/-- Does the node fit the operator it stands beside? -/
def fits : Operator → Node → Bool
  | .eq | .ne | .contains => Node.isScalar
  | .gt | .gte | .lt | .lte | .like | .notLike => Node.isNonNull
  | .is | .isNot => Node.isKeyword
  | .isIn | .notIn | .contained => Node.isList
  | .between | .notBetween => Node.isPair

mutual

/-- Is the tree a filter? -/
def wellFormed : List (String × Node) → Bool
  | [] => true
  | (key, node) :: rest => wellFormedEntry key node && wellFormed rest

/-- Is the node what may stand beside the key? -/
def wellFormedEntry (key : String) : Node → Bool
  | .scalar _ => key ≠ "and" && key ≠ "or"
  | .list items =>
      if key = "and" ∨ key = "or" then wellFormedChildren items else items.all Node.isScalar
  | .object [(operator, operand)] =>
      key ≠ "and" && key ≠ "or" && (Operator.ofKey? operator).any (fits · operand)
  | .object _ => false

/-- Are the items filters? -/
def wellFormedChildren : List Node → Bool
  | [] => true
  | .object entries :: rest => wellFormed entries && wellFormedChildren rest
  | _ :: _ => false

end

end Filter

/-! ### Checking -/

/-- Is the reason in a filter? -/
def Error.isOfFilter : Error → Bool
  | .filterShape _ _ | .unknownOperator _ _ => true
  | _ => false

namespace Draw

variable {α β : Type}

/-- There is a result exactly if `b` says so, and if there is none the reason is in a filter. -/
def Checks (x : Draw α) (b : Bool) : Prop := Settles (fun e => e.isOfFilter) x.result b

theorem checks_pure (a : α) : (pure a : Draw α).Checks true := settles_ok a rfl

theorem checks_yield (n : Nat) (a : α) : (Draw.yield n a).Checks true := settles_ok a rfl

theorem checks_refuse {e : Error} (h : e.isOfFilter) : (refuse e : Draw α).Checks false :=
  settles_error h Bool.false_ne_true

theorem Checks.bind {x : Draw α} {f : α → Draw β} {b c : Bool} (hx : x.Checks b)
    (hf : ∀ a, (f a).Checks c) : (x >>= f).Checks (b && c) := by
  rw [Checks, result_bind, Bool.and_eq_true]
  exact Settles.bind hx fun a _ _ => hf a

/-- What is done with a result does not matter if it cannot be refused. -/
theorem Checks.bind_pure {x : Draw α} {f : α → β} {b : Bool} (hx : x.Checks b) :
    (x >>= fun a => (pure (f a) : Draw β)).Checks b := by
  rw [← Bool.and_true b]
  exact hx.bind fun a => checks_pure (f a)

theorem lift_bind (x : Except Error α) (f : α → Except Error β) :
    Draw.lift (x >>= f) = Draw.lift x >>= fun a => Draw.lift (f a) := by
  cases x <;> rfl

end Draw

namespace Filter

open Draw

/-! ### Scalars -/

theorem checks_scalar (path : String) (node : Node) :
    (Draw.lift (scalar path node)).Checks node.isScalar := by
  cases node with
  | scalar v => exact checks_pure v
  | list _ | object _ => exact checks_refuse rfl

/-- A scalar that is asked for decides what is asked of it. -/
theorem checks_scalar_bind {α : Type} (path : String) {node : Node} {f : Value → Draw α} {b : Bool}
    (hv : ∀ v, node = .scalar v → (f v).Checks b) (hn : node.isScalar = false → b = false) :
    (Draw.lift (scalar path node) >>= f).Checks b := by
  cases node with
  | scalar v => exact hv v rfl
  | list _ | object _ =>
      rw [hn rfl]
      exact checks_refuse rfl

theorem checks_scalars (path : String) (i : Nat) (items : List Node) :
    (Draw.lift (scalars path i items)).Checks (items.all Node.isScalar) := by
  induction items generalizing i with
  | nil => exact checks_pure []
  | cons node items ih =>
      rw [scalars, List.all_cons, lift_bind]
      refine (checks_scalar _ node).bind fun v => ?_
      rw [lift_bind]
      exact (ih (i + 1)).bind_pure

theorem checks_drawScalars (path : String) (i : Nat) (items : List Node) :
    (drawScalars path i items).Checks (items.all Node.isScalar) := by
  induction items generalizing i with
  | nil => exact checks_pure []
  | cons node items ih =>
      rw [drawScalars, List.all_cons]
      refine (checks_scalar _ node).bind fun v => ?_
      rw [← Bool.true_and (items.all Node.isScalar)]
      exact (checks_yield 1 ()).bind fun _ => (ih (i + 1)).bind_pure

/-! ### Clauses on one column -/

theorem checks_comparison (path column : String) {o : Operator} {c : Comparison}
    (ho : o.operand = .comparison c) (v : Value) :
    (comparison path column o c v).Checks (fits o (.scalar v)) := by
  cases o <;> cases ho <;> cases v <;>
    first
      | exact settles_ok _ rfl
      | exact checks_refuse rfl

theorem checks_operation (path column : String) (o : Operator) (node : Node) :
    (operation path column o node).Checks (fits o node) := by
  -- a node that does not fit is refused
  have refused : ∀ {e : Error}, e.isOfFilter → fits o node = false →
      (refuse e : Draw Predicate).Checks (fits o node) := by
    intro e he hf
    rw [hf]
    exact checks_refuse he
  cases ho : o.operand with
  | comparison c =>
      simp only [operation, ho]
      refine checks_scalar_bind path (fun v hv => ?_) fun hn => ?_
      · rw [hv]
        exact checks_comparison path column ho v
      · cases node <;> cases hn <;> cases o <;> cases ho <;> rfl
  | keyword negated =>
      simp only [operation, ho]
      refine checks_scalar_bind path (fun v hv => ?_) fun hn => ?_
      · subst hv
        cases o <;> cases ho <;> rcases v with _ | ⟨_ | _⟩ | _ | _ | _ | _ | _ <;>
          first
            | exact checks_pure _
            | exact checks_refuse rfl
      · cases node <;> cases hn <;> cases o <;> cases ho <;> rfl
  | list negated =>
      cases node with
      | list items =>
          have h := (checks_drawScalars path 0 items).bind_pure
            (f := Predicate.membership column negated)
          simp only [operation, ho]
          cases o <;> cases ho <;> exact h
      | scalar _ | object _ =>
          simp only [operation, ho]
          cases o <;> cases ho <;> exact refused rfl rfl
  | range negated =>
      rcases node with v | (_ | ⟨low, _ | ⟨high, _ | ⟨x, items⟩⟩⟩) | es
      case list.cons.cons.nil =>
          have h := (checks_scalar (itemPath path 0) low).bind fun l =>
            (checks_scalar (itemPath path 1) high).bind fun u =>
              checks_yield 2 (Predicate.between column negated l u)
          rw [Bool.and_true] at h
          simp only [operation, ho]
          cases o <;> cases ho <;> exact h
      all_goals
          simp only [operation, ho]
          cases o <;> cases ho <;> exact refused rfl rfl
  | contains =>
      have h := (checks_scalar path node).bind fun v => checks_yield 1 (Predicate.contains column v)
      rw [Bool.and_true] at h
      simp only [operation, ho]
      cases o <;> cases ho
      exact h
  | contained =>
      cases node with
      | list items =>
          have h := (checks_scalars path 0 items).bind fun vs =>
            checks_yield 1 (Predicate.contained column vs)
          rw [Bool.and_true] at h
          simp only [operation, ho]
          cases o <;> cases ho
          exact h
      | scalar _ | object _ =>
          simp only [operation, ho]
          cases o <;> cases ho
          exact refused rfl rfl

/-- The clause of a column, which is not a combinator. -/
theorem checks_columnClause (path : String) {key : String} (hk : ¬ (key = "and" ∨ key = "or"))
    (node : Node) : (columnClause path key node).Checks (wellFormedEntry key node) := by
  have hkey : (key ≠ "and" && key ≠ "or" : Bool) = true := by simpa [not_or] using hk
  rcases node with v | items | es
  · rw [wellFormedEntry, hkey]
    cases v <;> exact settles_ok _ rfl
  · rw [wellFormedEntry, if_neg hk]
    exact (checks_drawScalars path 0 items).bind_pure
  · rcases es with _ | ⟨⟨operator, operand⟩, _ | ⟨e, es⟩⟩
    · exact checks_refuse rfl
    · rw [wellFormedEntry, hkey, Bool.true_and, columnClause]
      cases ho : Operator.ofKey? operator with
      | some o => exact checks_operation _ key o operand
      | none => exact checks_refuse rfl
    · exact checks_refuse rfl

/-! ### Trees -/

/-- Beside a combinator there has to be a list. -/
theorem wellFormedEntry_combinator {key : String} (hk : key = "and" ∨ key = "or") :
    ∀ {node : Node}, (∀ items, node ≠ .list items) → wellFormedEntry key node = false
  | .scalar v, _ => by
      rcases hk with rfl | rfl <;> rfl
  | .list items, hn => absurd rfl (hn items)
  | .object [], _ => rfl
  | .object [(operator, operand)], _ => by
      rcases hk with rfl | rfl <;> rfl
  | .object (_ :: _ :: _), _ => rfl

mutual

theorem checks_clauses : ∀ (path : String) (es : List (String × Node)),
    (clauses path es).Checks (wellFormed es)
  | path, [] => checks_pure []
  | path, (key, node) :: rest => by
      rw [clauses, wellFormed]
      exact (checks_clause (childPath path key) key node).bind fun p =>
        (checks_clauses path rest).bind_pure

theorem checks_clause : ∀ (path key : String) (node : Node),
    (clause path key node).Checks (wellFormedEntry key node)
  | path, key, .list items => by
      rw [clause]
      split
      case h_1 c hc =>
          rw [wellFormedEntry, if_pos (and_or_of_connective? hc)]
          exact (checks_children path 0 items).bind_pure
      case h_2 hc => exact checks_columnClause path (not_or.mpr (ne_of_connective? hc)) _
  | path, key, .scalar v => by
      rw [clause]
      · split
        case h_1 c hc =>
            rw [wellFormedEntry_combinator (and_or_of_connective? hc) (by simp)]
            exact checks_refuse rfl
        case h_2 hc => exact checks_columnClause path (not_or.mpr (ne_of_connective? hc)) _
      · simp
  | path, key, .object es => by
      rw [clause]
      · split
        case h_1 c hc =>
            rw [wellFormedEntry_combinator (and_or_of_connective? hc) (by simp)]
            exact checks_refuse rfl
        case h_2 hc => exact checks_columnClause path (not_or.mpr (ne_of_connective? hc)) _
      · simp

theorem checks_children : ∀ (path : String) (i : Nat) (items : List Node),
    (children path i items).Checks (wellFormedChildren items)
  | path, i, [] => checks_pure []
  | path, i, .object entries :: items => by
      rw [children, wellFormedChildren]
      exact (checks_clauses (itemPath path i) entries).bind fun cs =>
        (checks_children path (i + 1) items).bind_pure
  | path, i, .scalar v :: items => by
      rw [children]
      · exact checks_refuse rfl
      · simp
  | path, i, .list ns :: items => by
      rw [children]
      · exact checks_refuse rfl
      · simp

end

/-- **A tree has a predicate exactly if it is well-formed.** -/
theorem checks_predicate (f : Filter) : f.predicate.Checks (wellFormed f) :=
  (checks_clauses "" f).bind_pure

/-- Without a filter there is nothing to check. -/
theorem checks_predicate? (f : Option Filter) :
    (predicate? f).Checks (wellFormed (f.getD [])) := by
  rcases f with _ | _ | ⟨e, f⟩
  · exact checks_pure none
  · exact checks_pure none
  · exact (checks_predicate (e :: f)).bind_pure

end Filter

end RowGraph
