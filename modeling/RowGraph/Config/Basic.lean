import RowGraph.Schema.Registry

/-!
# Config — settings of a session

Where tables live and how many records an unpaged find reads.  `Config.validate` accepts only
settings under which no two tables get the same path: a project needs a dataset, and the names
keep to characters that cannot be taken for the dots between them.
-/

namespace RowGraph

/-- The settings; each may be missing. -/
structure Config where
  projectId : Option String
  dataset : Option String
  /-- Where jobs run; of use to the engine alone. -/
  location : Option String
  defaultLimit : Option Nat
  deriving DecidableEq, Repr

namespace Config

def empty : Config := ⟨none, none, none, none⟩

/-- Why settings are refused. -/
inductive Fault where
  | projectWithoutDataset
  | projectName
  | datasetName
  | zeroLimit
  deriving DecidableEq, Repr

def Fault.message : Fault → String
  | .projectWithoutDataset => "projectId requires dataset"
  | .projectName =>
      "projectId must be non-empty and contain only letters, digits, '-', ':' and '.'"
  | .datasetName => "dataset must be non-empty and contain only letters, digits and '_'"
  | .zeroLimit => "defaultLimit must be positive"

/-- The characters of a dataset's name: ASCII letters and digits, and the underscore. -/
def isNameChar (c : Char) : Bool := c.isAlphanum || c == '_'

/-- A project's name may hold hyphens, colons and dots as well. -/
def isProjectChar (c : Char) : Bool := isNameChar c || c == '-' || c == ':' || c == '.'

/-- Is the text not empty, and all of its characters of the given kind? -/
def isName (p : Char → Bool) (s : String) : Bool := !s.toList.isEmpty && s.toList.all p

def validate (c : Config) : Except Fault Unit := do
  if c.projectId.isSome && c.dataset.isNone then throw .projectWithoutDataset
  if c.projectId.any fun p => !isName isProjectChar p then throw .projectName
  if c.dataset.any fun d => !isName isNameChar d then throw .datasetName
  if c.defaultLimit = some 0 then throw .zeroLimit

/-- The namespace the settings put tables in. -/
def home (c : Config) : Namespace := ⟨c.projectId, c.dataset⟩

/-- A registry without entities in that namespace. -/
def registry (c : Config) : Registry := .empty c.home

end Config

end RowGraph
