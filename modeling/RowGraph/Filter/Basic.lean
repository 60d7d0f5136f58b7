import RowGraph.Error
import RowGraph.Value.Json

/-!
# Filter — trees

A filter is an ordered list of entries.  A key is a column name, or `and` or `or`; the node beside
it says what is asked: a scalar for equality, a list for membership or for the children of a
combinator, an object for an operator or, inside a combinator, for a child filter.  A key may stand
more than once.  Nothing is checked while a tree is built.
-/

namespace RowGraph

/-- The value side of a filter entry. -/
inductive Filter.Node where
  | scalar (v : Value)
  | list (items : List Node)
  | object (entries : List (String × Node))
  deriving Repr

/-- Entries in the order they were declared. -/
abbrev Filter := List (String × Filter.Node)

namespace Filter

/-! ### From values and documents -/

mutual

/-- The node of a value: an array is a list, so that it asks for membership. -/
def Node.ofValue : Value → Node
  | .array items => .list (Node.ofValues items)
  | v => .scalar v

def Node.ofValues : List Value → List Node
  | [] => []
  | v :: vs => Node.ofValue v :: Node.ofValues vs

end

mutual

/-- The node of a document: objects stay objects, arrays become lists. -/
def Node.ofJson : Json → Node
  | .object members => .object (Node.ofMembers members)
  | .array items => .list (Node.ofJsons items)
  | j => .scalar (Value.ofJson j)

def Node.ofJsons : List Json → List Node
  | [] => []
  | j :: js => Node.ofJson j :: Node.ofJsons js

def Node.ofMembers : List (String × Json) → List (String × Node)
  | [] => []
  | (name, j) :: rest => (name, Node.ofJson j) :: Node.ofMembers rest

end

/-- The filter a document describes: the document has to be an object. -/
def ofJson (j : Json) : Except Error Filter :=
  match Node.ofJson j with
  | .object entries => .ok entries
  | _ => .error (.filterShape "<root>" .notAnObject)

/-! ### Building -/

/-- Adds an entry at the end. -/
def insert (f : Filter) (key : String) (node : Node) : Filter := f ++ [(key, node)]

/-- `column = value`, or membership for an array. -/
def eq (f : Filter) (column : String) (v : Value) : Filter := f.insert column (.ofValue v)

/-- `column <operator> value`. -/
def op (f : Filter) (column : String) (o : Operator) (v : Value) : Filter :=
  f.insert column (.object [(o.key, .ofValue v)])

/-- `column` is one of the values. -/
def anyOf (f : Filter) (column : String) (vs : List Value) : Filter :=
  f.insert column (.list (vs.map .ofValue))

/-- All of the children hold. -/
def and (f : Filter) (children : List Filter) : Filter :=
  f.insert "and" (.list (children.map .object))

/-- One of the children holds. -/
def or (f : Filter) (children : List Filter) : Filter :=
  f.insert "or" (.list (children.map .object))

end Filter

end RowGraph
