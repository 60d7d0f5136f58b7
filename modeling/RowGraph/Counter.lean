import RowGraph.Error
import RowGraph.Threaded

/-!
# Counter — handing out the places of parameters

A counter stands at the place of the next parameter.  Work that it is threaded through draws places
from it (`Counter.draw`) and may be refused; the counter is left where it stood then.

Places have no bound, but a counter that is a machine word has one.  It goes on from zero behind its
last place (`Counter.wrapping`) or moves no further (`Counter.checked`).  `Counter.unbounded` has
places as they are.
-/

namespace RowGraph

/-- A counter with states `σ` and the errors `ε` of the work it is threaded through. -/
structure Counter (σ ε : Type) where
  /-- The place it stands at. -/
  place : σ → Nat
  /-- One place on. -/
  next : σ → Except ε σ
  /-- How the work reports that it is refused. -/
  refused : Error → ε

namespace Counter

variable {σ ε α : Type} (C : Counter σ ε)

def refuse (e : Error) : Threaded σ ε α := throw (C.refused e)

/-- A result that draws nothing. -/
def check : Except Error α → Threaded σ ε α
  | .ok a => pure a
  | .error e => C.refuse e

/-- The place the counter stands at, which moves on. -/
def draw : Threaded σ ε Nat := do
  let s ← get
  match C.next s with
  | .ok s' => do
      set s'
      return C.place s
  | .error e => throw e

end Counter

/-! ### Three counters -/

/-- A counter without a last place. -/
def Counter.unbounded : Counter Nat Error where
  place n := n
  next n := .ok (n + 1)
  refused e := e

/-- A word that goes on from zero behind its last place. -/
def Counter.wrapping : Counter UInt64 Error where
  place := UInt64.toNat
  next w := .ok (w + 1)
  refused e := e

/-- Why work on a counter with a last place ends early. -/
inductive Stop where
  | refused (e : Error)
  /-- The counter would have to move on from its last place. -/
  | overrun
  deriving DecidableEq, Repr

/-- A word that does not move on from its last place. -/
def Counter.checked : Counter UInt64 Stop where
  place := UInt64.toNat
  next w := if w.toNat + 1 < UInt64.size then .ok (w + 1) else .error .overrun
  refused := .refused

end RowGraph
