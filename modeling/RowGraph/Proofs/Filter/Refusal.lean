import RowGraph.Proofs.Filter.Visits

/-!
# Proofs — Filter — where a filter is refused

A computation is refused for the first of some reasons (`Draw.RefusedFor`) if it has a result
exactly where there are none; the reasons against one computation after another are put one after
the other (`Draw.RefusedFor.bind`).

**A filter is refused for the first node on the way through it that is not what it has to be**
(`refused_at_first`).  A column without a name is found under another path than the documented one
(`written_of_empty_column`).
-/

namespace RowGraph

/-! ### Refused for the first reason -/

namespace Draw

variable {α β : Type}

/-- Refused for the first of the reasons; there is a result if there are none. -/
def RefusedFor (x : Draw α) (es : List Error) : Prop :=
  ∀ e, x.result = .error e ↔ es.head? = some e

theorem refusedFor_pure (a : α) : (pure a : Draw α).RefusedFor [] := fun e => by
  constructor <;> intro h <;> cases h

theorem refusedFor_yield (n : Nat) (a : α) : (Draw.yield n a).RefusedFor [] := fun e => by
  constructor <;> intro h <;> cases h

/-- What would come behind the first reason does not matter. -/
theorem refusedFor_refuse (e : Error) (es : List Error) :
    (refuse e : Draw α).RefusedFor (e :: es) := fun e' => by
  constructor <;> intro h <;> cases h <;> rfl

/-- One after the other: the reasons against the first come before those against the second. -/
theorem RefusedFor.bind {x : Draw α} {f : α → Draw β} {es es' : List Error}
    (hx : x.RefusedFor es) (hf : ∀ a, (f a).RefusedFor es') :
    (x >>= f).RefusedFor (es ++ es') := by
  intro e
  rw [result_bind]
  cases hr : x.result with
  | error e' =>
      obtain ⟨rest, rfl⟩ := List.head?_eq_some_iff.mp ((hx e').mp hr)
      exact ⟨fun h => by cases h; rfl, fun h => by cases h; rfl⟩
  | ok a =>
      have hes : es = [] := by
        cases es with
        | nil => rfl
        | cons e' es => exact absurd ((hx e').mpr rfl) (by rw [hr]; simp)
      subst hes
      exact hf a e

theorem RefusedFor.bind_pure {x : Draw α} {f : α → β} {es : List Error} (hx : x.RefusedFor es) :
    (x >>= fun a => (pure (f a) : Draw β)).RefusedFor es := by
  rw [← List.append_nil es]
  exact hx.bind fun a => refusedFor_pure (f a)

end Draw

namespace Filter

open Draw

/-! ### Scalars -/

theorem refusedFor_scalar (path : String) (node : Node) :
    (Draw.lift (scalar path node)).RefusedFor (scalarRefusal path node).toList := by
  cases node with
  | scalar v => exact refusedFor_pure v
  | list _ | object _ => exact refusedFor_refuse _ []

theorem refusedFor_drawScalars (path : String) (i : Nat) (items : List Node) :
    (drawScalars path i items).RefusedFor (refusals path (visitItems i items)) := by
  induction items generalizing i with
  | nil => exact refusedFor_pure []
  | cons node items ih =>
      rw [drawScalars, visitItems, refusals_cons]
      refine (refusedFor_scalar _ node).bind fun v => ?_
      exact (refusedFor_yield 1 ()).bind fun _ => (ih (i + 1)).bind_pure

theorem refusedFor_scalars (path : String) (i : Nat) (items : List Node) :
    (Draw.lift (scalars path i items)).RefusedFor (refusals path (visitItems i items)) := by
  induction items generalizing i with
  | nil => exact refusedFor_pure []
  | cons node items ih =>
      rw [scalars, visitItems, refusals_cons, lift_bind]
      refine (refusedFor_scalar _ node).bind fun v => ?_
      rw [lift_bind]
      exact (ih (i + 1)).bind_pure

/-! ### Clauses on one column -/

theorem refusedFor_operation (path column : String) (o : Operator) (node : Node) :
    (operation path column o node).RefusedFor (refusals path (visitOperand o node)) := by
  cases ho : o.operand with
  | comparison c =>
      simp only [operation, ho]
      rcases node with v | items | es
      · cases o <;> cases ho <;> cases v <;>
          first
            | exact refusedFor_pure _
            | exact refusedFor_yield 1 _
            | exact refusedFor_refuse _ _
      all_goals cases o <;> cases ho <;> exact refusedFor_refuse _ _
  | keyword negated =>
      simp only [operation, ho]
      rcases node with v | items | es
      · cases o <;> cases ho <;> rcases v with _ | ⟨_ | _⟩ | _ | _ | _ | _ | _ <;>
          first
            | exact refusedFor_pure _
            | exact refusedFor_refuse _ _
      all_goals cases o <;> cases ho <;> exact refusedFor_refuse _ _
  | list negated =>
      simp only [operation, ho]
      rcases node with v | items | es
      case list =>
          have h := (refusedFor_drawScalars path 0 items).bind_pure
            (f := Predicate.membership column negated)
          cases o <;> cases ho <;> exact h
      all_goals cases o <;> cases ho <;> exact refusedFor_refuse _ _
  | range negated =>
      rcases node with v | (_ | ⟨low, _ | ⟨high, _ | ⟨x, items⟩⟩⟩) | es
      case list.cons.cons.nil =>
          have h := (refusedFor_scalar (itemPath path 0) low).bind fun l =>
            (refusedFor_scalar (itemPath path 1) high).bind fun u =>
              refusedFor_yield 2 (Predicate.between column negated l u)
          simp only [operation, ho, visitOperand, visitItems, refusals_cons, refusals_nil]
          cases o <;> cases ho <;> exact h
      all_goals
          simp only [operation, ho]
          cases o <;> cases ho <;> exact refusedFor_refuse _ _
  | contains =>
      simp only [operation, ho]
      rcases node with v | items | es
      all_goals
          cases o <;> cases ho
          first
            | exact refusedFor_yield 1 _
            | exact refusedFor_refuse _ _
  | contained =>
      simp only [operation, ho]
      rcases node with v | items | es
      case list =>
          have h := (refusedFor_scalars path 0 items).bind fun vs =>
            refusedFor_yield 1 (Predicate.contained column vs)
          rw [List.append_nil] at h
          cases o <;> cases ho
          exact h
      all_goals
          cases o <;> cases ho
          exact refusedFor_refuse _ _

/-- The clause of a column, which is not a combinator. -/
theorem refusedFor_columnClause (path : String) {key : String} (hk : ¬ (key = "and" ∨ key = "or"))
    (node : Node) :
    (columnClause path key node).RefusedFor (refusals path (visitEntry key node)) := by
  rcases node with v | items | es
  · have hv : refusals path (visitEntry key (.scalar v)) = [] := by
      simp [visitEntry, Visit.refusal, Role.refusal, entryRefusal, if_neg hk]
    rw [hv]
    cases v with
    | null => exact refusedFor_pure _
    | _ => exact refusedFor_yield 1 _
  · rw [visitEntry, if_neg hk]
    exact (refusedFor_drawScalars path 0 items).bind_pure
  · have hv (r : Option Error) (hr : entryRefusal path key (.object es) = r) :
        refusals path (visitEntry key (.object es)) =
          r.toList ++ refusals path (visitOperands es) := by
      rw [visitEntry, refusals_cons, ← hr]
      rfl
    rcases es with _ | ⟨⟨operator, operand⟩, _ | ⟨e, es⟩⟩
    · rw [hv _ (if_neg hk)]
      exact refusedFor_refuse _ _
    · rw [columnClause]
      cases ho : Operator.ofKey? operator with
      | some o =>
          have hp : refusals path (visitOperands [(operator, operand)]) =
              refusals (childPath path operator) (visitOperand o operand) := by
            simp [visitOperands, ho, Path.extend]
          rw [hv none (by rw [entryRefusal, if_neg hk]; simp [ho]), hp]
          exact refusedFor_operation (childPath path operator) key o operand
      | none =>
          rw [hv _ (by rw [entryRefusal, if_neg hk]), ho]
          exact refusedFor_refuse _ _
    · rw [hv _ (if_neg hk)]
      exact refusedFor_refuse _ _

/-! ### Trees -/

/-- Beside a combinator there has to be a list. -/
theorem refusals_combinator (path : String) {key : String} (hk : key = "and" ∨ key = "or")
    {node : Node} (hn : ∀ items, node ≠ .list items) :
    ∃ es, refusals path (visitEntry key node) =
      .filterShape path .combinatorWithoutSequence :: es := by
  cases node with
  | scalar v =>
      have hr : entryRefusal path key (.scalar v) = _ := if_pos hk
      exact ⟨[], by simp [visitEntry, Visit.refusal, Role.refusal, hr]⟩
  | list items => exact absurd rfl (hn items)
  | object es =>
      have hr : entryRefusal path key (.object es) = _ := if_pos hk
      exact ⟨_, by simp [visitEntry, Visit.refusal, Role.refusal, hr]; rfl⟩

theorem refusedFor_clause_of_ne_list (path key : String) {node : Node}
    (hn : ∀ items, node ≠ .list items) :
    (clause path key node).RefusedFor (refusals path (visitEntry key node)) := by
  rw [clause]
  · split
    case h_1 c hc =>
        obtain ⟨es, hes⟩ := refusals_combinator path (and_or_of_connective? hc) hn
        rw [hes]
        exact refusedFor_refuse _ es
    case h_2 hc => exact refusedFor_columnClause path (not_or.mpr (ne_of_connective? hc)) node
  · exact hn

mutual

theorem refusedFor_clauses : ∀ (path : String) (es : List (String × Node)),
    (clauses path es).RefusedFor (refusals path (visits es))
  | path, [] => refusedFor_pure []
  | path, (key, node) :: rest => by
      rw [clauses, visits, refusals_append, refusals_under]
      exact (refusedFor_clause (childPath path key) key node).bind fun p =>
        (refusedFor_clauses path rest).bind_pure

theorem refusedFor_clause : ∀ (path key : String) (node : Node),
    (clause path key node).RefusedFor (refusals path (visitEntry key node))
  | path, key, .list items => by
      rw [clause]
      split
      case h_1 c hc =>
          rw [visitEntry, if_pos (and_or_of_connective? hc)]
          exact (refusedFor_children path 0 items).bind_pure
      case h_2 hc => exact refusedFor_columnClause path (not_or.mpr (ne_of_connective? hc)) _
  | path, key, .scalar v => refusedFor_clause_of_ne_list path key (by simp)
  | path, key, .object es => refusedFor_clause_of_ne_list path key (by simp)

theorem refusedFor_children : ∀ (path : String) (i : Nat) (items : List Node),
    (children path i items).RefusedFor (refusals path (visitChildren i items))
  | path, i, [] => refusedFor_pure []
  | path, i, .object entries :: items => by
      rw [children, visitChildren, refusals_cons, refusals_append, refusals_under]
      exact (refusedFor_clauses (itemPath path i) entries).bind fun cs =>
        (refusedFor_children path (i + 1) items).bind_pure
  | path, i, .scalar v :: items => by
      rw [children]
      · exact refusedFor_refuse _ _
      · simp
  | path, i, .list ns :: items => by
      rw [children]
      · exact refusedFor_refuse _ _
      · simp

end

theorem refusedFor_predicate (f : Filter) :
    f.predicate.RefusedFor ((visits f).filterMap Visit.reason) :=
  (refusedFor_clauses "" f).bind_pure

/-- **A filter compiles exactly if it is well-formed, and is refused for the first node that is not
what it has to be.**  The reason is a fault of this node, named by its path, or an unknown operator,
named with its column; and the path is the documented one where no column without a name has an
operator beside it. -/
theorem refused_at_first (f : Filter) (q : Option String) (n : Nat) :
    ((∃ g, (f.compile q n).1 = .ok g) ↔ wellFormed f) ∧
    (∀ e, (f.compile q n).1 = .error e ↔ ∃ vs v ws, visits f = vs ++ v :: ws ∧
      (∀ w ∈ vs, w.reason = none) ∧ v.reason = some e) ∧
    (∀ v e, Visit.reason v = some e → (∃ fault, e = .filterShape v.path.written fault) ∨
      ∃ column operator operand, v.role = .entry column ∧ v.node = .object [(operator, operand)] ∧
        Operator.ofKey? operator = none ∧ e = .unknownOperator column operator) ∧
    ((∀ es, ("", .object es) ∉ f) → ∀ v ∈ visits f, v.path.written = v.path.text) := by
  refine ⟨?_, fun e => ?_, fun v e => Visit.reason_eq_some, fun hf v => written_of_mem_visits hf⟩
  · rw [← (checks_predicate f).ok_iff, compile_eq]
    cases f.predicate.result with
    | error e => simp [Except.map]
    | ok p => simp [Except.map]
  · have hc : (f.compile q n).1 = .error e ↔ f.predicate.result = .error e := by
      rw [compile_eq]
      cases f.predicate.result <;> simp [Except.map]
    rw [hc, refusedFor_predicate f e, List.head?_filterMap, List.findSome?_eq_some_iff]
    constructor
    · rintro ⟨vs, v, ws, h, hv, hvs⟩
      exact ⟨vs, v, ws, h, hvs, hv⟩
    · rintro ⟨vs, v, ws, h, hvs, hv⟩
      exact ⟨vs, v, ws, h, hv, hvs⟩

/-- Of two children the second has a range that goes up to a list. -/
def ranged : Filter :=
  [("title", .scalar (.string "A")),
    ("or", .list [.object [("id", .object [("is", .scalar .null)])],
      .object [("id", .object [("between", .list [.scalar (.int64 1), .list []])])]])]

theorem refused_at_first_ranged :
    (ranged.compile (some "book") 3).1 =
        .error (.filterShape "or[1].id.between[1]" .sequenceForScalar) ∧
      ∃ vs v ws, visits ranged = vs ++ v :: ws ∧ (∀ w ∈ vs, w.reason = none) ∧
        v.reason = some (.filterShape "or[1].id.between[1]" .sequenceForScalar) ∧
        v.path.written = v.path.text := by
  obtain ⟨-, herror, -, hpath⟩ := refused_at_first ranged (some "book") 3
  have h : (ranged.compile (some "book") 3).1 =
      .error (.filterShape "or[1].id.between[1]" .sequenceForScalar) := rfl
  obtain ⟨vs, v, ws, hv, hvs, hr⟩ := (herror _).mp h
  exact ⟨h, vs, v, ws, hv, hvs, hr, hpath (by simp [ranged]) v (by simp [hv])⟩

/-- A column without a name that has to be greater than null. -/
def unnamed : Filter := [("", .object [("gt", .scalar .null)])]

/-- The operand of a column without a name stands at the root under the path of an entry, and below
a combinator under its own. -/
theorem written_of_empty_column :
    (unnamed.compile none 0).1 = .error (.filterShape "gt" (.nullOperand .gt)) ∧
      (Filter.compile [("and", .list [.object unnamed])] none 0).1 =
        .error (.filterShape "and[0]..gt" (.nullOperand .gt)) ∧
      ∃ v w, visits unnamed = [v, w] ∧ v.reason = none ∧
        w.role.refusal w.path.text w.node = some (.filterShape ".gt" (.nullOperand .gt)) :=
  ⟨rfl, rfl, _, _, rfl, rfl, rfl⟩

end Filter

end RowGraph
