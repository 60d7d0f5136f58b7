import RowGraph.Sql.Fragment

/-!
# Sql — statements and parameters

A statement is SQL text with named parameters and their values, in the order of the placeholders.
Within one statement the names are `param0`, `param1`, … as they are drawn.
-/

namespace RowGraph.Sql

/-- The name of the parameter drawn in place `n`. -/
def paramName (n : Nat) : String := "param" ++ toString n

/-- The placeholder drawn in place `n`, bound to a value. -/
def Fragment.param (n : Nat) (value : Value) : Fragment := [.param (paramName n) value]

/-- Placeholders for the values, from place `n` on. -/
def Fragment.paramsFrom (n : Nat) : List Value → List Fragment
  | [] => []
  | v :: vs => Fragment.param n v :: paramsFrom (n + 1) vs

/-- Named values in the order they were bound. -/
abbrev Params := List (String × Value)

/-- Binds a value to the name drawn in place `n`. -/
def Params.bind (ps : Params) (n : Nat) (value : Value) : Params := ps ++ [(paramName n, value)]

/-- The value bound to a name. -/
def Params.get? (ps : Params) (name : String) : Option Value :=
  (ps.find? (·.1 == name)).map (·.2)

/-- SQL text and the values of its parameters. -/
structure Statement where
  sql : String
  params : Params
  deriving Repr

def Fragment.statement (f : Fragment) : Statement := ⟨f.text, f.params⟩

end RowGraph.Sql
