import RowGraph.Counter
import RowGraph.Filter.Check

/-!
# Filter — from trees to SQL

`Filter.compileBy` writes a tree as SQL in one walk, depth first and left to right, through which a
counter is threaded: each value is a parameter at the place that the counter hands out when the walk
comes to it.  The walk is refused at the first offending node, and leaves the counter where it
stands: the parameters of the clauses before the node, and of the items before it in a list, have
been drawn.  `Filter.compile` is the walk with a counter that has no last place.
-/

namespace RowGraph.Filter

open Sql

section Writing

variable {σ ε : Type} (C : Counter σ ε) (q : Option String)

/-! ### Parameters -/

/-- A value as the next parameter. -/
def writeParam (v : Value) : Threaded σ ε Fragment := do
  let n ← C.draw
  return .param n v

/-- The parameters of a list of scalars, item `i` first, each drawn as it is met. -/
def writeParams (path : String) : Nat → List Node → Threaded σ ε (List Fragment)
  | _, [] => pure []
  | i, node :: rest => do
      let v ← C.check (scalar (itemPath path i) node)
      let p ← writeParam C v
      let ps ← writeParams path (i + 1) rest
      return p :: ps

/-! ### Clauses on one column -/

/-- `column IS keyword`, or `IS NOT`. -/
def isClause (column : String) (negated : Bool) (k : Keyword) : Fragment :=
  .column q column ++ .token (if negated then .isNot else .is) ++ .token k.token

/-- `column <c> v`; equality with null is a question of `IS`, and no other comparison takes it. -/
def writeComparison (path column : String) (o : Operator) (c : Comparison) :
    Value → Threaded σ ε Fragment
  | .null =>
      match c with
      | .eq => pure (isClause q column false .null)
      | .ne => pure (isClause q column true .null)
      | _ => C.refuse (.filterShape path (.nullOperand o))
  | v => do
      let p ← writeParam C v
      return .column q column ++ .token c.token ++ p

/-- Membership in a list: in an empty one there is nothing. -/
def writeMembership (path column : String) (negated : Bool) : List Node → Threaded σ ε Fragment
  | [] => pure (.token (if negated then .true else .false))
  | items => do
      let ps ← writeParams C path 0 items
      return .column q column ++ .token (if negated then .notIn else .isIn) ++ .parens (.commas ps)

/-- The clause of an operator and the node beside it. -/
def writeOperation (path column : String) (o : Operator) (node : Node) : Threaded σ ε Fragment :=
  match o.operand, node with
  | .comparison c, node => do
      let v ← C.check (scalar path node)
      writeComparison C q path column o c v
  | .keyword negated, node => do
      let v ← C.check (scalar path node)
      match keywordOf? v with
      | some k => pure (isClause q column negated k)
      | none => C.refuse (.filterShape path (.keywordExpected o))
  | .list negated, .list items => writeMembership C q path column negated items
  | .list _, _ => C.refuse (.filterShape path (.sequenceExpected o))
  | .range negated, .list [low, high] => do
      let l ← C.check (scalar (itemPath path 0) low)
      let h ← C.check (scalar (itemPath path 1) high)
      let first ← writeParam C l
      let second ← writeParam C h
      return .column q column ++ .token (if negated then .notBetween else .between) ++
        first ++ .token .and ++ second
  | .range _, _ => C.refuse (.filterShape path (.pairExpected o))
  | .contains, node => do
      let v ← C.check (scalar path node)
      let p ← writeParam C v
      return p ++ .token .isIn ++ .call "UNNEST" (.column q column)
  | .contained, .list items => do
      let vs ← C.check (scalars path 0 items)
      let p ← writeParam C (.array vs)
      return .column q column ++ .token .isIn ++ .call "UNNEST" p
  | .contained, _ => C.refuse (.filterShape path (.sequenceExpected o))

/-- The clause of a column and the node beside it: equality with a scalar, membership in a list,
or the one operator of an object. -/
def writeColumn (path column : String) : Node → Threaded σ ε Fragment
  | .scalar .null => pure (isClause q column false .null)
  | .scalar v => do
      let p ← writeParam C v
      return .column q column ++ .token .eq ++ p
  | .list items => writeMembership C q path column false items
  | .object [(key, operand)] =>
      match Operator.ofKey? key with
      | some o => writeOperation C q (childPath path key) column o operand
      | none => C.refuse (.unknownOperator column key)
  | .object _ => C.refuse (.filterShape path .notOneOperator)

/-! ### Trees -/

/-- All of the clauses: none hold always. -/
def allOf : List Fragment → Fragment
  | [] => .token .true
  | fs => .joinGrouped .and fs

/-- The children under a combinator, each in parentheses: none hold always, even under `or`. -/
def combined (c : Connective) : List Fragment → Fragment
  | [] => .token .true
  | fs => .join c.token (fs.map .parens)

mutual

/-- The clauses of the entries of the tree at `path`. -/
def writeClauses (path : String) : List (String × Node) → Threaded σ ε (List Fragment)
  | [] => pure []
  | (key, node) :: rest => do
      let f ← writeClause (childPath path key) key node
      let fs ← writeClauses path rest
      return f :: fs

/-- The clause of one entry, itself at `path`. -/
def writeClause (path key : String) : Node → Threaded σ ε Fragment
  | .list items =>
      match connective? key with
      | some c => do
          let fs ← writeChildren path 0 items
          return combined c fs
      | none => writeColumn C q path key (.list items)
  | node =>
      match connective? key with
      | some _ => C.refuse (.filterShape path .combinatorWithoutSequence)
      | none => writeColumn C q path key node

/-- The filters in the list at `path`, item `i` first. -/
def writeChildren (path : String) : Nat → List Node → Threaded σ ε (List Fragment)
  | _, [] => pure []
  | i, .object entries :: rest => do
      let cs ← writeClauses (itemPath path i) entries
      let fs ← writeChildren path (i + 1) rest
      return allOf cs :: fs
  | i, _ :: _ => C.refuse (.filterShape (itemPath path i) .combinatorChildNotAnObject)

end

/-- The filter as SQL. -/
def write (f : Filter) : Threaded σ ε Fragment := do
  let cs ← writeClauses C q "" f
  return allOf cs

end Writing

/-- The filter as SQL, columns behind `q` and parameters from where the counter stands, and where it
stands afterwards. -/
def compileBy {σ ε : Type} (C : Counter σ ε) (f : Filter) (q : Option String) (s : σ) :
    Except ε Fragment × σ :=
  outcome (write C q f) s

/-- The filter as SQL, columns behind `q` and parameters from place `n` on, and the place of the
parameter after its last. -/
def compile (f : Filter) (q : Option String) (n : Nat) : Except Error Fragment × Nat :=
  f.compileBy .unbounded q n

end RowGraph.Filter
