import RowGraph.Filter.Operator

/-!
# Error — why a request is refused

Each constructor of `Error` is one cause, and `Error.message` is the only place where the wording
stands.  A malformed filter is refused with the path of the offending node and a `ShapeFault`.
-/

namespace RowGraph

/-- What is wrong with a node of a filter. -/
inductive ShapeFault where
  | notAnObject
  | combinatorWithoutSequence
  | combinatorChildNotAnObject
  | notOneOperator
  | sequenceForScalar
  | objectForScalar
  | nullOperand (o : Operator)
  | keywordExpected (o : Operator)
  | sequenceExpected (o : Operator)
  | pairExpected (o : Operator)
  deriving DecidableEq, Repr

def ShapeFault.message : ShapeFault → String
  | .notAnObject => "filter must be an object"
  | .combinatorWithoutSequence => "combinator expects a sequence of filters"
  | .combinatorChildNotAnObject => "combinator children must be filter objects"
  | .notOneOperator => "operator object must have exactly one key"
  | .sequenceForScalar => "expected a scalar, found a sequence"
  | .objectForScalar => "expected a scalar, found an object"
  | .nullOperand o => "'" ++ o.key ++ "' does not accept null"
  | .keywordExpected o => "'" ++ o.key ++ "' expects null or a boolean"
  | .sequenceExpected o => "'" ++ o.key ++ "' expects a sequence"
  | .pairExpected o => "'" ++ o.key ++ "' expects a sequence of two values"

/-- The part a many-to-many association lacks. -/
inductive LinkPart where
  | throughEntity
  | otherKey
  deriving DecidableEq, Repr

def LinkPart.name : LinkPart → String
  | .throughEntity => "through entity"
  | .otherKey => "other key"

/-- Why a definition or a request is refused. -/
inductive Error where
  | filterShape (path : String) (fault : ShapeFault)
  | unknownOperator (column key : String)
  | associationNotFound (host target aliasName : String)
  | linkPartMissing (host aliasName : String) (part : LinkPart)
  | unknownEntity (name : String)
  | duplicateEntity (name : String)
  | duplicateAlias (entity aliasName : String)
  | unknownAttribute (entity column : String)
  | noValues (entity : String)
  | ambiguousAlias (aliasName : String)
  deriving DecidableEq, Repr

def Error.message : Error → String
  | .filterShape path fault => "Invalid filter shape at '" ++ path ++ "': " ++ fault.message
  | .unknownOperator column key => "Invalid operator '" ++ key ++ "' on column '" ++ column ++ "'"
  | .associationNotFound host target aliasName =>
      "No association '" ++ aliasName ++ "' from '" ++ host ++ "' to '" ++ target ++ "'"
  | .linkPartMissing host aliasName part =>
      "Association '" ++ aliasName ++ "' on '" ++ host ++ "' is belongsToMany but has no " ++
        part.name
  | .unknownEntity name => "Unknown entity '" ++ name ++ "'"
  | .duplicateEntity name => "Entity '" ++ name ++ "' is already defined"
  | .duplicateAlias entity aliasName =>
      "Alias '" ++ aliasName ++ "' is already used by an association or attribute on '" ++
        entity ++ "'"
  | .unknownAttribute entity column =>
      "Unknown attribute '" ++ column ++ "' on '" ++ entity ++ "'"
  | .noValues entity => "Statement on '" ++ entity ++ "' has no values"
  | .ambiguousAlias aliasName =>
      "Alias '" ++ aliasName ++ "' is used by more than one table in the statement"

end RowGraph
