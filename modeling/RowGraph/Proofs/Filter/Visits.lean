import RowGraph.Proofs.Filter.WellFormed

/-!
# Proofs — Filter — the way through a filter

`Filter.visits` goes through the nodes of a filter depth first and left to right.  At each node it
says by which path the node is reached and what it has to be there (`Role`): the node beside a key
of a tree, the operand of an operator, a scalar of a list, or a filter under a combinator.  What is
wrong with a node (`Role.refusal`) depends on nothing but the node and its role.

As it is documented (`Path.text`), a path has its keys joined by dots; as it is written
(`Path.written`), it loses the first dot if the first key is empty, and no other
(`Path.written_eq_text`).
-/

namespace RowGraph.Filter

/-! ### Paths -/

/-- One step down a filter: to the node beside a key, or to an item of a list. -/
inductive Step where
  | key (k : String)
  | item (i : Nat)
  deriving DecidableEq, Repr

def Step.text : Step → String
  | .key k => "." ++ k
  | .item i => "[" ++ toString i ++ "]"

/-- The steps from the root to a node. -/
abbrev Path := List Step

namespace Path

/-- The keys joined by dots, with the index in brackets behind a list. -/
def text : Path → String
  | .key k :: p => k ++ String.join (p.map Step.text)
  | p => String.join (p.map Step.text)

/-- The path of the node one step down. -/
def extend (path : String) : Step → String
  | .key k => childPath path k
  | .item i => itemPath path i

/-- The path that stands in the reason of a refusal. -/
def written (p : Path) : String := p.foldl extend ""

theorem extend_of_ne {path : String} (h : path ≠ "") (s : Step) :
    extend path s = path ++ s.text := by
  cases s with
  | key k => rw [extend, childPath, if_neg h, Step.text, String.append_assoc]
  | item i => simp only [extend, itemPath, Step.text, String.append_assoc]

theorem foldl_extend_of_ne {path : String} (h : path ≠ "") (p : Path) :
    p.foldl extend path = path ++ String.join (p.map Step.text) := by
  induction p generalizing path with
  | nil => simp
  | cons s p ih =>
      have hs : path ++ s.text ≠ "" := fun he => h (String.append_eq_empty_iff.mp he).1
      rw [List.foldl_cons, extend_of_ne h, ih hs, List.map_cons, String.join_cons,
        String.append_assoc]

/-- A path is written as it is documented, unless its first key is empty and a key follows. -/
theorem written_eq_text {k : String} {p : Path} (h : k = "" → ∀ l q, p ≠ .key l :: q) :
    written (.key k :: p) = text (.key k :: p) := by
  have hk : extend "" (.key k) = k := by rw [extend, childPath, if_pos rfl]
  rw [written, List.foldl_cons, hk, text]
  by_cases he : k = ""
  · subst he
    cases p with
    | nil => rfl
    | cons s p =>
        cases s with
        | key l => exact absurd rfl (h rfl l p)
        | item i =>
            have hi : extend "" (.item i) = (Step.item i).text := by
              simp only [extend, itemPath, Step.text, String.empty_append]
            rw [List.foldl_cons, hi, foldl_extend_of_ne (by simp [Step.text]), List.map_cons,
              String.join_cons, String.empty_append]
  · exact foldl_extend_of_ne he p

end Path

/-! ### Roles -/

/-- What a node is there for. -/
inductive Role where
  /-- To stand beside a key of a tree. -/
  | entry (key : String)
  /-- To be the operand of an operator. -/
  | operand (o : Operator)
  /-- To be a scalar of a list. -/
  | item
  /-- To be a filter under a combinator. -/
  | child
  deriving DecidableEq, Repr

/-- What is wrong with a node that has to be a scalar. -/
def scalarRefusal (path : String) : Node → Option Error
  | .scalar _ => none
  | .list _ => some (.filterShape path .sequenceForScalar)
  | .object _ => some (.filterShape path .objectForScalar)

/-- What is wrong with the node beside a key: a combinator needs a list, and in the object beside a
column there has to be one known operator. -/
def entryRefusal (path key : String) : Node → Option Error
  | .list _ => none
  | .scalar _ =>
      if key = "and" ∨ key = "or" then some (.filterShape path .combinatorWithoutSequence) else none
  | .object entries =>
      if key = "and" ∨ key = "or" then some (.filterShape path .combinatorWithoutSequence)
      else match entries with
        | [(operator, _)] =>
            if (Operator.ofKey? operator).isSome then none else some (.unknownOperator key operator)
        | _ => some (.filterShape path .notOneOperator)

/-- What is wrong with the operand of an operator. -/
def operandRefusal (path : String) (o : Operator) (node : Node) : Option Error :=
  match o with
  | .eq | .ne | .contains => scalarRefusal path node
  | .gt | .gte | .lt | .lte | .like | .notLike =>
      (scalarRefusal path node).or
        (if node.isNonNull then none else some (.filterShape path (.nullOperand o)))
  | .is | .isNot =>
      (scalarRefusal path node).or
        (if node.isKeyword then none else some (.filterShape path (.keywordExpected o)))
  | .isIn | .notIn | .contained =>
      match node with
      | .list _ => none
      | _ => some (.filterShape path (.sequenceExpected o))
  | .between | .notBetween =>
      match node with
      | .list [_, _] => none
      | _ => some (.filterShape path (.pairExpected o))

/-- What is wrong with a node in its role, apart from what is wrong below it. -/
def Role.refusal (path : String) : Role → Node → Option Error
  | .entry key, node => entryRefusal path key node
  | .operand o, node => operandRefusal path o node
  | .item, node => scalarRefusal path node
  | .child, .object _ => none
  | .child, _ => some (.filterShape path .combinatorChildNotAnObject)

/-! ### The way through a filter -/

/-- A node on the way through a filter. -/
structure Visit where
  path : Path
  role : Role
  node : Node

namespace Visit

/-- The visit as it is made from one step above. -/
def under (s : Step) (v : Visit) : Visit := { v with path := s :: v.path }

/-- What is wrong with the node, if the way started at the node at `path`. -/
def refusal (path : String) (v : Visit) : Option Error :=
  v.role.refusal (v.path.foldl Path.extend path) v.node

/-- What is wrong with the node, if the way started at the root. -/
def reason (v : Visit) : Option Error := v.role.refusal v.path.written v.node

end Visit

/-- The scalars of a list, item `i` first. -/
def visitItems : Nat → List Node → List Visit
  | _, [] => []
  | i, node :: rest => ⟨[.item i], .item, node⟩ :: visitItems (i + 1) rest

/-- The operand of an operator, and the items if it is a list. -/
def visitOperand (o : Operator) : Node → List Visit
  | .list items => ⟨[], .operand o, .list items⟩ :: visitItems 0 items
  | node => [⟨[], .operand o, node⟩]

/-- The operands beside the known operators. -/
def visitOperands : List (String × Node) → List Visit
  | [] => []
  | (key, node) :: rest =>
      (((Operator.ofKey? key).toList.flatMap fun o => visitOperand o node).map
        (.under (.key key))) ++ visitOperands rest

mutual

/-- The nodes of a filter, depth first and left to right. -/
def visits : List (String × Node) → List Visit
  | [] => []
  | (key, node) :: rest => (visitEntry key node).map (.under (.key key)) ++ visits rest

/-- The node beside a key, and those below it. -/
def visitEntry (key : String) : Node → List Visit
  | .scalar v => [⟨[], .entry key, .scalar v⟩]
  | .list items =>
      ⟨[], .entry key, .list items⟩ ::
        if key = "and" ∨ key = "or" then visitChildren 0 items else visitItems 0 items
  | .object entries => ⟨[], .entry key, .object entries⟩ :: visitOperands entries

/-- The filters under a combinator, item `i` first, each before what is in it. -/
def visitChildren : Nat → List Node → List Visit
  | _, [] => []
  | i, .object entries :: rest =>
      ⟨[.item i], .child, .object entries⟩ ::
        ((visits entries).map (.under (.item i)) ++ visitChildren (i + 1) rest)
  | i, node :: rest => ⟨[.item i], .child, node⟩ :: visitChildren (i + 1) rest

end

/-- What is wrong with the nodes on a way, in its order. -/
def refusals (path : String) (vs : List Visit) : List Error := vs.filterMap (Visit.refusal path)

@[simp] theorem refusals_nil (path : String) : refusals path [] = [] := rfl

@[simp] theorem refusals_cons (path : String) (v : Visit) (vs : List Visit) :
    refusals path (v :: vs) = (v.refusal path).toList ++ refusals path vs := by
  rw [refusals, List.filterMap_cons]
  cases v.refusal path <;> rfl

@[simp] theorem refusals_append (path : String) (vs ws : List Visit) :
    refusals path (vs ++ ws) = refusals path vs ++ refusals path ws := List.filterMap_append

@[simp] theorem refusals_under (path : String) (s : Step) (vs : List Visit) :
    refusals path (vs.map (.under s)) = refusals (Path.extend path s) vs := by
  rw [refusals, List.filterMap_map]
  rfl

/-! ### The path of a node -/

theorem mem_visits {v : Visit} : ∀ {es : List (String × Node)}, v ∈ visits es →
    ∃ key node, (key, node) ∈ es ∧ ∃ w ∈ visitEntry key node, w.under (.key key) = v
  | [], h => absurd h (by simp [visits])
  | (key, node) :: rest, h => by
      rw [visits, List.mem_append, List.mem_map] at h
      rcases h with ⟨w, hw, rfl⟩ | h
      · exact ⟨key, node, List.mem_cons_self, w, hw, rfl⟩
      · obtain ⟨key', node', hm, w⟩ := mem_visits h
        exact ⟨key', node', List.mem_cons_of_mem _ hm, w⟩

theorem path_of_mem_visitItems {v : Visit} : ∀ {i : Nat} {items : List Node},
    v ∈ visitItems i items → ∃ j, v.path = [.item j]
  | _, [], h => absurd h (by simp [visitItems])
  | i, node :: rest, h => by
      rw [visitItems, List.mem_cons] at h
      rcases h with rfl | h
      · exact ⟨i, rfl⟩
      · exact path_of_mem_visitItems h

theorem path_of_mem_visitChildren {v : Visit} : ∀ {i : Nat} {items : List Node},
    v ∈ visitChildren i items → ∃ j p, v.path = .item j :: p
  | _, [], h => absurd h (by simp [visitChildren])
  | i, .object entries :: rest, h => by
      rw [visitChildren, List.mem_cons, List.mem_append, List.mem_map] at h
      rcases h with rfl | ⟨w, hw, rfl⟩ | h
      · exact ⟨i, [], rfl⟩
      · exact ⟨i, w.path, rfl⟩
      · exact path_of_mem_visitChildren h
  | i, .scalar _ :: rest, h | i, .list _ :: rest, h => by
      rw [visitChildren, List.mem_cons] at h
      · rcases h with rfl | h
        · exact ⟨i, [], rfl⟩
        · exact path_of_mem_visitChildren h
      · simp

/-- A key leads further down from an object only. -/
theorem object_of_mem_visitEntry {key k : String} {node : Node} {v : Visit} {p : Path}
    (h : v ∈ visitEntry key node) (hp : v.path = .key k :: p) : ∃ es, node = .object es := by
  cases node with
  | object es => exact ⟨es, rfl⟩
  | scalar u =>
      rw [visitEntry, List.mem_singleton] at h
      subst h
      cases hp
  | list items =>
      rw [visitEntry, List.mem_cons] at h
      rcases h with rfl | h
      · cases hp
      · split at h
        · obtain ⟨j, q, hq⟩ := path_of_mem_visitChildren h
          cases hq.symm.trans hp
        · obtain ⟨j, hq⟩ := path_of_mem_visitItems h
          cases hq.symm.trans hp

theorem written_of_mem_visits {f : Filter} (hf : ∀ es, ("", .object es) ∉ f) {v : Visit}
    (h : v ∈ visits f) : v.path.written = v.path.text := by
  obtain ⟨key, node, hm, w, hw, rfl⟩ := mem_visits h
  refine Path.written_eq_text fun hk l q hp => ?_
  obtain ⟨es, rfl⟩ := object_of_mem_visitEntry hw hp
  exact hf es (hk ▸ hm)

/-! ### Reasons -/

theorem scalarRefusal_eq_some {path : String} {node : Node} {e : Error}
    (h : scalarRefusal path node = some e) : ∃ fault, e = .filterShape path fault := by
  cases node <;> cases h <;> exact ⟨_, rfl⟩

theorem operandRefusal_eq_some {path : String} {o : Operator} {node : Node} {e : Error}
    (h : operandRefusal path o node = some e) : ∃ fault, e = .filterShape path fault := by
  -- what is asked of a scalar comes second
  have second {b : Bool} {fault : ShapeFault} (h : (scalarRefusal path node).or
      (if b then none else some (.filterShape path fault)) = some e) :
      ∃ fault, e = .filterShape path fault := by
    rcases Option.or_eq_some_iff.mp h with h | ⟨-, h⟩
    · exact scalarRefusal_eq_some h
    · cases b <;> cases h
      exact ⟨_, rfl⟩
  cases o with
  | eq | ne | contains => exact scalarRefusal_eq_some h
  | gt | gte | lt | lte | like | notLike | is | isNot => exact second h
  | isIn | notIn | contained | between | notBetween =>
      unfold operandRefusal at h
      dsimp only at h
      split at h <;> cases h
      exact ⟨_, rfl⟩

/-- The reason is a fault of the node at the path of the visit, or the unknown operator in it. -/
theorem Visit.reason_eq_some {v : Visit} {e : Error} (h : v.reason = some e) :
    (∃ fault, e = .filterShape v.path.written fault) ∨
      ∃ column operator operand, v.role = .entry column ∧ v.node = .object [(operator, operand)] ∧
        Operator.ofKey? operator = none ∧ e = .unknownOperator column operator := by
  obtain ⟨path, role, node⟩ := v
  cases role with
  | operand o => exact .inl (operandRefusal_eq_some h)
  | item => exact .inl (scalarRefusal_eq_some h)
  | child => cases node <;> cases h <;> exact .inl ⟨_, rfl⟩
  | entry column =>
      have h : entryRefusal path.written column node = some e := h
      unfold entryRefusal at h
      split at h
      case h_1 => cases h
      case h_2 =>
          split at h <;> cases h
          exact .inl ⟨_, rfl⟩
      case h_3 =>
          split at h
          case isTrue => cases h; exact .inl ⟨_, rfl⟩
          case isFalse =>
              split at h
              case h_1 operator operand =>
                  split at h <;> cases h
                  case isFalse ho =>
                      exact .inr ⟨column, _, _, rfl, rfl, by simpa using ho, rfl⟩
              case h_2 => cases h; exact .inl ⟨_, rfl⟩

end RowGraph.Filter
