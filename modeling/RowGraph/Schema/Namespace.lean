/-!
# Schema — namespaces

The project and the dataset that table names are qualified with.
-/

namespace RowGraph

/-- Where tables live. -/
structure Namespace where
  project : Option String
  dataset : Option String
  deriving DecidableEq, Repr

namespace Namespace

def empty : Namespace := ⟨none, none⟩

/-- The path of a table.  A project counts only together with a dataset. -/
def qualify (ns : Namespace) (table : String) : String :=
  match ns.project, ns.dataset with
  | some p, some d => p ++ "." ++ d ++ "." ++ table
  | none, some d => d ++ "." ++ table
  | _, none => table

end Namespace

end RowGraph
