import RowGraph.Filter.Operator
import RowGraph.Sql.Statement

/-!
# Filter — predicates

A `Predicate` is a filter whose shape has been checked: every operator has the operand it needs
and every column is named.  It carries the values themselves; qualifier and parameter names come
in only when it is written by `Predicate.fragment`.  Parameters are drawn in the order of
`Predicate.values`, which is also the order of their placeholders.
-/

namespace RowGraph

/-- The words that follow `IS` and `IS NOT`. -/
inductive Keyword where
  | null
  | true
  | false
  deriving DecidableEq, Repr

def Keyword.token : Keyword → Sql.Token
  | .null => .null
  | .true => .true
  | .false => .false

/-- How the parts of a compound predicate are put together. -/
inductive Connective where
  | and
  | or
  deriving DecidableEq, Repr

def Connective.token : Connective → Sql.Token
  | .and => .and
  | .or => .or

/-- A checked filter. -/
inductive Predicate where
  /-- Holds always, or never. -/
  | constant (b : Bool)
  /-- `column IS keyword`, or `IS NOT`. -/
  | is (column : String) (negated : Bool) (k : Keyword)
  /-- `column = value` and the like. -/
  | compare (column : String) (c : Comparison) (value : Value)
  /-- `column IN (values)`, or `NOT IN`. -/
  | among (column : String) (negated : Bool) (values : List Value)
  /-- `column BETWEEN low AND high`, or `NOT BETWEEN`. -/
  | between (column : String) (negated : Bool) (low high : Value)
  /-- `value IN UNNEST(column)`. -/
  | contains (column : String) (value : Value)
  /-- `column IN UNNEST(values)`, the values bound as one array. -/
  | contained (column : String) (values : List Value)
  /-- The parts, each in parentheses. -/
  | junction (c : Connective) (parts : List Predicate)
  deriving Repr

namespace Predicate

/-- All of the clauses: none hold always, one stands for itself. -/
def conjunction : List Predicate → Predicate
  | [] => .constant true
  | [p] => p
  | ps => .junction .and ps

/-- The children under a combinator: none hold always, even under `or`. -/
def combination (c : Connective) : List Predicate → Predicate
  | [] => .constant true
  | ps => .junction c ps

/-- Membership in a list of values: in an empty list there is nothing. -/
def membership (column : String) (negated : Bool) : List Value → Predicate
  | [] => .constant negated
  | vs => .among column negated vs

/-! ### Values and text -/

mutual

/-- The values to bind, in the order they are drawn. -/
def values : Predicate → List Value
  | .constant _ => []
  | .is _ _ _ => []
  | .compare _ _ v => [v]
  | .among _ _ vs => vs
  | .between _ _ low high => [low, high]
  | .contains _ v => [v]
  | .contained _ vs => [.array vs]
  | .junction _ ps => valuesOf ps

def valuesOf : List Predicate → List Value
  | [] => []
  | p :: ps => p.values ++ valuesOf ps

end

/-- How many parameters are drawn. -/
def size (p : Predicate) : Nat := p.values.length

open Sql

mutual

/-- The predicate as SQL: columns behind `q`, parameters from place `n` on. -/
def fragment (q : Option String) : Predicate → Nat → Fragment
  | .constant b, _ => .token (if b then .true else .false)
  | .is column negated k, _ =>
      .column q column ++ .token (if negated then .isNot else .is) ++ .token k.token
  | .compare column c v, n => .column q column ++ .token c.token ++ .param n v
  | .among column negated vs, n =>
      .column q column ++ .token (if negated then .notIn else .isIn) ++
        .parens (.commas (Fragment.paramsFrom n vs))
  | .between column negated low high, n =>
      .column q column ++ .token (if negated then .notBetween else .between) ++
        .param n low ++ .token .and ++ .param (n + 1) high
  | .contains column v, n => .param n v ++ .token .isIn ++ .call "UNNEST" (.column q column)
  | .contained column vs, n =>
      .column q column ++ .token .isIn ++ .call "UNNEST" (.param n (.array vs))
  | .junction c ps, n => .join c.token (groups q ps n)

/-- The parts, each in parentheses and numbered on from the one before. -/
def groups (q : Option String) : List Predicate → Nat → List Fragment
  | [], _ => []
  | p :: ps, n => .parens (p.fragment q n) :: groups q ps (n + p.size)

end

end Predicate

end RowGraph
