import RowGraph.Filter.Compile
import RowGraph.Proofs.Counter
import RowGraph.Proofs.Filter.Checked

/-!
# Proofs — Filter — checking and writing in one walk

A filter is written in one walk, and checked without being written in another.  The two go together:
the walk that writes draws what the other counts, is refused where the other is, and comes to the
text of the predicate that the other comes to (`Writes`).

**Compiling a filter is writing its predicate** from the place on that it is given (`compile_eq`).
-/

namespace RowGraph

namespace Filter

open Sql Draw

variable {α β γ κ : Type} {q : Option String}

/-! ### Writing beside checking -/

/-- From place `n` on, work draws what `x` draws, is refused where `x` is, and comes to the text of
what `x` comes to. -/
def Writes (w : Threaded Nat Error β) (x : Draw α) (text : α → β) (n : Nat) : Prop :=
  outcome w n = (x.result.map text, n + x.drawn)

section Writes

variable {x : Draw α} {text : α → β} {more : γ → κ} {n : Nat}

theorem writes_pure {a : α} {b : β} (h : b = text a) : Writes (pure b) (pure a) text n := by
  rw [Writes, outcome_pure, h]
  rfl

theorem writes_refuse (e : Error) : Writes (Counter.unbounded.refuse e) (.refuse e) text n := rfl

theorem writes_check (y : Except Error α) :
    Writes (Counter.unbounded.check y) (.lift y) id n := by
  cases y <;> rfl

theorem writes_param (v : Value) (a : α) :
    Writes (writeParam .unbounded v) (.yield 1 a) (fun _ => .param n v) n := rfl

/-- What comes second is written from the place on that the first has left. -/
theorem Writes.bind {w : Threaded Nat Error β} {f : α → Draw γ} {g : β → Threaded Nat Error κ}
    (h : Writes w x text n)
    (hf : ∀ a k, x.Yields a k → Writes (g (text a)) (f a) more (n + k)) :
    Writes (w >>= g) (x >>= f) more n := by
  rw [Writes, outcome_bind, h]
  obtain ⟨r, k⟩ := x
  cases r with
  | error e => rfl
  | ok a =>
      refine (hf a k rfl).trans ?_
      rw [Nat.add_assoc]
      rfl

/-- What is checked draws nothing. -/
theorem writes_check_bind {y : Except Error α} {f : α → Draw γ} {g : α → Threaded Nat Error κ}
    (hf : ∀ a, Writes (g a) (f a) more n) :
    Writes (Counter.unbounded.check y >>= g) (.lift y >>= f) more n := by
  refine (writes_check y).bind fun a k h => ?_
  obtain ⟨-, rfl⟩ := yields_lift h
  exact hf a

end Writes

/-! ### Clauses on one column -/

theorem writes_params (path : String) (i : Nat) (items : List Node) (n : Nat) :
    Writes (writeParams .unbounded path i items) (drawScalars path i items)
      (Fragment.paramsFrom n) n := by
  induction items generalizing i n with
  | nil => exact writes_pure rfl
  | cons node items ih =>
      refine writes_check_bind fun v => (writes_param v ()).bind fun _ k h => ?_
      obtain ⟨-, rfl⟩ := yields_yield h
      exact (ih (i + 1) (n + 1)).bind fun vs k _ => writes_pure rfl

theorem writes_comparison (path column : String) (o : Operator) (c : Comparison) (v : Value)
    (n : Nat) :
    Writes (writeComparison .unbounded q path column o c v) (comparison path column o c v)
      (Predicate.fragment q · n) n := by
  cases v with
  | null => cases c <;> rfl
  | _ => rfl

theorem writes_membership (path column : String) (negated : Bool) (items : List Node) (n : Nat) :
    Writes (writeMembership .unbounded q path column negated items)
      (do let vs ← drawScalars path 0 items; return .membership column negated vs)
      (Predicate.fragment q · n) n := by
  cases items with
  | nil => rfl
  | cons node items =>
      refine (writes_params path 0 (node :: items) n).bind fun vs k h => ?_
      obtain ⟨hvs, -⟩ := yields_drawScalars h
      cases vs with
      | nil => cases hvs
      | cons v vs => exact writes_pure rfl

theorem writes_operation (path column : String) (o : Operator) (node : Node) (n : Nat) :
    Writes (writeOperation .unbounded q path column o node) (operation path column o node)
      (Predicate.fragment q · n) n := by
  unfold writeOperation operation
  generalize o.operand = k
  match k, node with
  | .comparison c, node => exact writes_check_bind fun v => writes_comparison path column o c v n
  | .keyword negated, node =>
      refine writes_check_bind fun v => ?_
      cases keywordOf? v with
      | some k => exact writes_pure rfl
      | none => exact writes_refuse _
  | .list negated, .list items => exact writes_membership path column negated items n
  | .range negated, .list [low, high] =>
      exact writes_check_bind fun l => writes_check_bind fun h => rfl
  | .contains, node => exact writes_check_bind fun v => rfl
  | .contained, .list items => exact writes_check_bind fun vs => rfl
  | .list _, .scalar _ | .list _, .object _ | .range _, .scalar _ | .range _, .object _
  | .range _, .list [] | .range _, .list [_] | .range _, .list (_ :: _ :: _ :: _)
  | .contained, .scalar _ | .contained, .object _ => exact writes_refuse _

theorem writes_column (path column : String) (node : Node) (n : Nat) :
    Writes (writeColumn .unbounded q path column node) (columnClause path column node)
      (Predicate.fragment q · n) n := by
  match node with
  | .scalar v => cases v <;> rfl
  | .list items => exact writes_membership path column false items n
  | .object [(key, operand)] =>
      unfold writeColumn columnClause
      dsimp only
      cases Operator.ofKey? key with
      | some o => exact writes_operation (childPath path key) column o operand n
      | none => exact writes_refuse _
  | .object [] | .object (_ :: _ :: _) => exact writes_refuse _

/-! ### Trees -/

/-- The clauses, numbered on from one to the next. -/
def fragments (q : Option String) : List Predicate → Nat → List Fragment
  | [], _ => []
  | p :: ps, n => p.fragment q n :: fragments q ps (n + p.size)

theorem groups_eq (q : Option String) (ps : List Predicate) (n : Nat) :
    Predicate.groups q ps n = (fragments q ps n).map .parens := by
  induction ps generalizing n with
  | nil => rfl
  | cons p ps ih => rw [Predicate.groups, fragments, List.map_cons, ih]

theorem allOf_fragments (q : Option String) (cs : List Predicate) (n : Nat) :
    allOf (fragments q cs n) = (Predicate.conjunction cs).fragment q n := by
  match cs with
  | [] => rfl
  | [c] => rfl
  | c :: d :: cs =>
      have hcs : Predicate.conjunction (c :: d :: cs) = .junction .and (c :: d :: cs) := rfl
      rw [hcs, Predicate.fragment, groups_eq]
      rfl

theorem combined_fragments (q : Option String) (c : Connective) (ps : List Predicate) (n : Nat) :
    combined c (fragments q ps n) = (Predicate.combination c ps).fragment q n := by
  cases ps with
  | nil => rfl
  | cons p ps =>
      rw [Predicate.combination, Predicate.fragment, groups_eq]
      · rfl
      · simp

mutual

theorem writes_clauses : ∀ (path : String) (es : List (String × Node)) (n : Nat),
    Writes (writeClauses .unbounded q path es) (clauses path es) (fragments q · n) n
  | path, [], n => by
      rw [writeClauses, clauses]
      exact writes_pure rfl
  | path, (key, node) :: rest, n => by
      rw [writeClauses, clauses]
      refine (writes_clause (childPath path key) key node n).bind fun p k h => ?_
      obtain ⟨-, rfl⟩ := yields_clause h
      exact (writes_clauses path rest (n + p.size)).bind fun ps k _ => writes_pure rfl

theorem writes_clause : ∀ (path key : String) (node : Node) (n : Nat),
    Writes (writeClause .unbounded q path key node) (clause path key node)
      (Predicate.fragment q · n) n
  | path, key, .list items, n => by
      rw [writeClause, clause]
      cases connective? key with
      | some c =>
          exact (writes_children path 0 items n).bind fun ps k _ =>
            writes_pure (combined_fragments q c ps n)
      | none => exact writes_column path key (.list items) n
  | path, key, .scalar v, n => by
      rw [writeClause, clause]
      · cases connective? key with
        | some c => exact writes_refuse _
        | none => exact writes_column path key (.scalar v) n
      · simp
      · simp
  | path, key, .object es, n => by
      rw [writeClause, clause]
      · cases connective? key with
        | some c => exact writes_refuse _
        | none => exact writes_column path key (.object es) n
      · simp
      · simp

theorem writes_children : ∀ (path : String) (i : Nat) (items : List Node) (n : Nat),
    Writes (writeChildren .unbounded q path i items) (children path i items) (fragments q · n) n
  | path, i, [], n => by
      rw [writeChildren, children]
      exact writes_pure rfl
  | path, i, .object entries :: rest, n => by
      rw [writeChildren, children]
      refine (writes_clauses (itemPath path i) entries n).bind fun cs k h => ?_
      obtain ⟨-, rfl⟩ := yields_clauses h
      refine (writes_children path (i + 1) rest _).bind fun ps k _ => writes_pure ?_
      rw [allOf_fragments, fragments, Predicate.size, values_conjunction]
  | path, i, .scalar v :: rest, n => by
      rw [writeChildren, children]
      · exact writes_refuse _
      · simp
      · simp
  | path, i, .list items :: rest, n => by
      rw [writeChildren, children]
      · exact writes_refuse _
      · simp
      · simp

end

/-! ### Filters -/

/-- **Compiling a filter is writing its predicate**: what is written in one walk is the text of what
the filter is checked to be, and the place of the next parameter is as many places on as are drawn,
after a refusal too. -/
theorem compile_eq (f : Filter) (q : Option String) (n : Nat) :
    f.compile q n = (f.predicate.result.map fun p => p.fragment q n, n + f.predicate.drawn) :=
  (writes_clauses "" f n).bind fun cs _ _ => writes_pure (allOf_fragments q cs n)

/-- **A filter that compiles** asks for clauses, and what it draws is one parameter for each value
of their conjunction. -/
theorem compile_eq_ok {f : Filter} {q : Option String} {n m : Nat} {g : Fragment}
    (h : f.compile q n = (.ok g, m)) :
    ∃ cs, Clauses f cs ∧ g = (Predicate.conjunction cs).fragment q n ∧
      m = n + (Predicate.conjunction cs).size := by
  rw [compile_eq] at h
  obtain ⟨hg, rfl⟩ := Prod.mk.inj h
  cases hp : f.predicate.result with
  | error e => rw [hp] at hg; cases hg
  | ok p =>
      rw [hp] at hg
      cases hg
      have hy : f.predicate.Yields p f.predicate.drawn := by rw [Draw.Yields, ← hp]
      obtain ⟨cs, hcs, rfl, hk⟩ := yields_predicate hy
      exact ⟨cs, hcs, rfl, by rw [hk]⟩

end Filter

end RowGraph
