import RowGraph.Draw
import RowGraph.Filter.Basic
import RowGraph.Filter.Predicate

/-!
# Filter — from trees to predicates

`Filter.predicate` checks a tree and turns it into a predicate.  It walks depth first and left to
right and is refused at the first offending node, named by its path from the root.  Neither the
qualifier nor the first parameter's place plays a part in it; how many parameters are drawn is
counted after a refusal too: those of the clauses before the offending node, and of the items
before it in a list.
-/

namespace RowGraph.Filter

/-! ### Paths -/

/-- The path of the entry `key` of the tree at `path`. -/
def childPath (path key : String) : String := if path = "" then key else path ++ "." ++ key

/-- The path of item `i` of the list at `path`. -/
def itemPath (path : String) (i : Nat) : String := path ++ "[" ++ toString i ++ "]"

/-! ### Scalars and lists of scalars -/

/-- The value of a node that has to be a scalar. -/
def scalar (path : String) : Node → Except Error Value
  | .scalar v => .ok v
  | .list _ => .error (.filterShape path .sequenceForScalar)
  | .object _ => .error (.filterShape path .objectForScalar)

/-- The values of a list of scalars, item `i` first; nothing is drawn for them. -/
def scalars (path : String) : Nat → List Node → Except Error (List Value)
  | _, [] => .ok []
  | i, node :: rest => do
      let v ← scalar (itemPath path i) node
      let vs ← scalars path (i + 1) rest
      return v :: vs

/-- The values of a list of scalars, item `i` first, each drawn as it is met. -/
def drawScalars (path : String) : Nat → List Node → Draw (List Value)
  | _, [] => pure []
  | i, node :: rest => do
      let v ← .lift (scalar (itemPath path i) node)
      Draw.yield 1 ()
      let vs ← drawScalars path (i + 1) rest
      return v :: vs

/-! ### Clauses on one column -/

def keywordOf? : Value → Option Keyword
  | .null => some .null
  | .bool true => some .true
  | .bool false => some .false
  | _ => none

/-- `column <c> v`; equality with null is a question of `IS`, and no other comparison takes it. -/
def comparison (path column : String) (o : Operator) (c : Comparison) : Value → Draw Predicate
  | .null =>
      match c with
      | .eq => pure (.is column false .null)
      | .ne => pure (.is column true .null)
      | _ => .refuse (.filterShape path (.nullOperand o))
  | v => .yield 1 (.compare column c v)

/-- The clause of an operator and the node beside it. -/
def operation (path column : String) (o : Operator) (node : Node) : Draw Predicate :=
  match o.operand, node with
  | .comparison c, node => do
      let v ← .lift (scalar path node)
      comparison path column o c v
  | .keyword negated, node => do
      let v ← .lift (scalar path node)
      match keywordOf? v with
      | some k => pure (.is column negated k)
      | none => .refuse (.filterShape path (.keywordExpected o))
  | .list negated, .list items => do
      let vs ← drawScalars path 0 items
      return .membership column negated vs
  | .list _, _ => .refuse (.filterShape path (.sequenceExpected o))
  | .range negated, .list [low, high] => do
      let l ← .lift (scalar (itemPath path 0) low)
      let h ← .lift (scalar (itemPath path 1) high)
      .yield 2 (.between column negated l h)
  | .range _, _ => .refuse (.filterShape path (.pairExpected o))
  | .contains, node => do
      let v ← .lift (scalar path node)
      .yield 1 (.contains column v)
  | .contained, .list items => do
      let vs ← .lift (scalars path 0 items)
      .yield 1 (.contained column vs)
  | .contained, _ => .refuse (.filterShape path (.sequenceExpected o))

/-- The clause of a column and the node beside it: equality with a scalar, membership in a list,
or the one operator of an object. -/
def columnClause (path column : String) : Node → Draw Predicate
  | .scalar .null => pure (.is column false .null)
  | .scalar v => .yield 1 (.compare column .eq v)
  | .list items => do
      let vs ← drawScalars path 0 items
      return .membership column false vs
  | .object [(key, operand)] =>
      match Operator.ofKey? key with
      | some o => operation (childPath path key) column o operand
      | none => .refuse (.unknownOperator column key)
  | .object _ => .refuse (.filterShape path .notOneOperator)

/-! ### Trees -/

/-- The keys that combine filters; every other key is a column. -/
def connective? (key : String) : Option Connective :=
  if key = "and" then some .and else if key = "or" then some .or else none

mutual

/-- The clauses of the entries of the tree at `path`. -/
def clauses (path : String) : List (String × Node) → Draw (List Predicate)
  | [] => pure []
  | (key, node) :: rest => do
      let p ← clause (childPath path key) key node
      let ps ← clauses path rest
      return p :: ps

/-- The clause of one entry, itself at `path`. -/
def clause (path key : String) : Node → Draw Predicate
  | .list items =>
      match connective? key with
      | some c => do
          let ps ← children path 0 items
          return .combination c ps
      | none => columnClause path key (.list items)
  | node =>
      match connective? key with
      | some _ => .refuse (.filterShape path .combinatorWithoutSequence)
      | none => columnClause path key node

/-- The filters in the list at `path`, item `i` first. -/
def children (path : String) : Nat → List Node → Draw (List Predicate)
  | _, [] => pure []
  | i, .object entries :: rest => do
      let cs ← clauses (itemPath path i) entries
      let ps ← children path (i + 1) rest
      return .conjunction cs :: ps
  | i, _ :: _ => .refuse (.filterShape (itemPath path i) .combinatorChildNotAnObject)

end

/-- The predicate of a filter. -/
def predicate (f : Filter) : Draw Predicate := do
  let cs ← clauses "" f
  return .conjunction cs

end RowGraph.Filter
