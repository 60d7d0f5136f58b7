/-!
# Sql — keywords and signs

The fixed words and signs of the statements this library writes.  Comparison signs and
punctuation are told apart from words because they are spaced differently.
-/

namespace RowGraph.Sql

/-- A keyword, a comparison sign or a punctuation mark. -/
inductive Token where
  | select
  | fromTable
  | filter
  | groupBy
  | orderBy
  | limit
  | offset
  | insertInto
  | values
  | update
  | set
  | deleteFrom
  | innerJoin
  | leftOuterJoin
  | on
  | as
  | distinct
  | asc
  | desc
  | and
  | or
  | isIn
  | notIn
  | is
  | isNot
  | like
  | notLike
  | between
  | notBetween
  | null
  | true
  | false
  | eq
  | ne
  | gt
  | ge
  | lt
  | le
  | lparen
  | rparen
  | comma
  | dot
  deriving DecidableEq, Repr

namespace Token

def all : List Token :=
  [.select, .fromTable, .filter, .groupBy, .orderBy, .limit, .offset, .insertInto, .values,
    .update, .set, .deleteFrom, .innerJoin, .leftOuterJoin, .on, .as, .distinct, .asc, .desc,
    .and, .or, .isIn, .notIn, .is, .isNot, .like, .notLike, .between, .notBetween, .null, .true,
    .false, .eq, .ne, .gt, .ge, .lt, .le, .lparen, .rparen, .comma, .dot]

/-- The written form. -/
def text : Token → String
  | .select => "SELECT"
  | .fromTable => "FROM"
  | .filter => "WHERE"
  | .groupBy => "GROUP BY"
  | .orderBy => "ORDER BY"
  | .limit => "LIMIT"
  | .offset => "OFFSET"
  | .insertInto => "INSERT INTO"
  | .values => "VALUES"
  | .update => "UPDATE"
  | .set => "SET"
  | .deleteFrom => "DELETE FROM"
  | .innerJoin => "INNER JOIN"
  | .leftOuterJoin => "LEFT OUTER JOIN"
  | .on => "ON"
  | .as => "AS"
  | .distinct => "DISTINCT"
  | .asc => "ASC"
  | .desc => "DESC"
  | .and => "AND"
  | .or => "OR"
  | .isIn => "IN"
  | .notIn => "NOT IN"
  | .is => "IS"
  | .isNot => "IS NOT"
  | .like => "LIKE"
  | .notLike => "NOT LIKE"
  | .between => "BETWEEN"
  | .notBetween => "NOT BETWEEN"
  | .null => "NULL"
  | .true => "TRUE"
  | .false => "FALSE"
  | .eq => "="
  | .ne => "!="
  | .gt => ">"
  | .ge => ">="
  | .lt => "<"
  | .le => "<="
  | .lparen => "("
  | .rparen => ")"
  | .comma => ","
  | .dot => "."

/-- The comparison signs. -/
def isOperator : Token → Bool
  | .eq | .ne | .gt | .ge | .lt | .le => Bool.true
  | _ => Bool.false

def isPunctuation : Token → Bool
  | .lparen | .rparen | .comma | .dot => Bool.true
  | _ => Bool.false

/-- Keywords: neither signs nor punctuation. -/
def isWord (t : Token) : Bool := !t.isOperator && !t.isPunctuation

theorem mem_all (t : Token) : t ∈ all := by
  cases t <;> decide

end Token

end RowGraph.Sql
