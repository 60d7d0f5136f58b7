import RowGraph.Error

/-!
# Draw — computations that draw parameters

A computation that may be refused and draws parameters on the way.  `drawn` counts them whether it
is refused or not, so the place of the next parameter is known after an error as well.
-/

namespace RowGraph

/-- A result or the reason there is none, and the number of parameters drawn before either. -/
structure Draw (α : Type) where
  result : Except Error α
  drawn : Nat

namespace Draw

variable {α β : Type}

/-- One after the other; the first refusal ends it. -/
def bind (x : Draw α) (f : α → Draw β) : Draw β :=
  match x.result with
  | .error e => ⟨.error e, x.drawn⟩
  | .ok a => ⟨(f a).result, x.drawn + (f a).drawn⟩

instance : Monad Draw where
  pure a := ⟨.ok a, 0⟩
  bind := bind

/-- A result that draws nothing. -/
def lift (x : Except Error α) : Draw α := ⟨x, 0⟩

/-- A result for which `n` parameters are drawn. -/
def yield (n : Nat) (a : α) : Draw α := ⟨.ok a, n⟩

def refuse (e : Error) : Draw α := ⟨.error e, 0⟩

end Draw

end RowGraph
