import RowGraph.Sql.Token

/-!
# Filter — operators

Inside a filter an operator is named by a key.  `Operator.ofKey?` reads the keys, among them one
alias: `isNot` and `not` name the same operator, and `Operator.key` writes `not`.

`Operator.operand` sorts the operators by what they take on their right.
-/

namespace RowGraph

/-- A comparison of a column with one bound value. -/
inductive Comparison where
  | eq
  | ne
  | gt
  | ge
  | lt
  | le
  | like
  | notLike
  deriving DecidableEq, Repr

def Comparison.token : Comparison → Sql.Token
  | .eq => .eq
  | .ne => .ne
  | .gt => .gt
  | .ge => .ge
  | .lt => .lt
  | .le => .le
  | .like => .like
  | .notLike => .notLike

/-- What a filter may ask of a column. -/
inductive Operator where
  | eq
  | ne
  | gt
  | gte
  | lt
  | lte
  | like
  | notLike
  | is
  | isNot
  | isIn
  | notIn
  | between
  | notBetween
  | contains
  | contained
  deriving DecidableEq, Repr

/-- What stands on the right of an operator. -/
inductive Operand where
  /-- One value. -/
  | comparison (c : Comparison)
  /-- Null, true or false, written as a keyword. -/
  | keyword (negated : Bool)
  /-- A list of values the column is in. -/
  | list (negated : Bool)
  /-- Two values the column is between. -/
  | range (negated : Bool)
  /-- One value the column, an array, contains. -/
  | contains
  /-- An array of values the column is in. -/
  | contained
  deriving DecidableEq, Repr

namespace Operator

def all : List Operator :=
  [.eq, .ne, .gt, .gte, .lt, .lte, .like, .notLike, .is, .isNot, .isIn, .notIn, .between,
    .notBetween, .contains, .contained]

/-- The key an operator is written with. -/
def key : Operator → String
  | .eq => "eq"
  | .ne => "ne"
  | .gt => "gt"
  | .gte => "gte"
  | .lt => "lt"
  | .lte => "lte"
  | .like => "like"
  | .notLike => "notLike"
  | .is => "is"
  | .isNot => "not"
  | .isIn => "in"
  | .notIn => "notIn"
  | .between => "between"
  | .notBetween => "notBetween"
  | .contains => "contains"
  | .contained => "contained"

/-- The operator a key names. -/
def ofKey? (key : String) : Option Operator :=
  if key = "isNot" then some .isNot else all.find? (·.key == key)

def operand : Operator → Operand
  | .eq => .comparison .eq
  | .ne => .comparison .ne
  | .gt => .comparison .gt
  | .gte => .comparison .ge
  | .lt => .comparison .lt
  | .lte => .comparison .le
  | .like => .comparison .like
  | .notLike => .comparison .notLike
  | .is => .keyword false
  | .isNot => .keyword true
  | .isIn => .list false
  | .notIn => .list true
  | .between => .range false
  | .notBetween => .range true
  | .contains => .contains
  | .contained => .contained

theorem ofKey?_key (o : Operator) : ofKey? o.key = some o := by
  cases o <;> rfl

end Operator

end RowGraph
