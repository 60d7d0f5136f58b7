import RowGraph.Row
import RowGraph.Value.Text

/-!
# Session — reading a count

A count is answered with one row whose cell `count` holds the number, as an integer or, by some
engines, as a decimal numeral.  Anything that is not a whole number below `2 ^ 64` is refused.
-/

namespace RowGraph

/-- Why an answer holds no count. -/
inductive CountFault where
  | missing
  | notNumeral (s : String)
  | notInteger (v : Value)
  deriving Repr

def CountFault.message : CountFault → String
  | .missing => "count column missing from result"
  | .notNumeral s => "count is not an integer: '" ++ s ++ "'"
  | .notInteger v => "count is not an integer: " ++ v.display

namespace Count

/-- The value of decimal digits. -/
def decimalValue (ds : List Char) : Nat := ds.foldl (fun n c => n * 10 + (c.toNat - 0x30)) 0

/-- Reads digits, one or more, of a number below `2 ^ 64`. -/
def digits? (ds : List Char) : Option Nat :=
  if !ds.isEmpty && ds.all Char.isDigit && decimalValue ds < UInt64.size then some (decimalValue ds)
  else none

/-- Reads a numeral; a plus sign may stand in front. -/
def numeral? : List Char → Option Nat
  | '+' :: ds => digits? ds
  | ds => digits? ds

/-- The count in the first row of an answer. -/
def ofRows (rows : List Row) : Except CountFault Nat :=
  match rows.head?.bind (·.get? "count") with
  | none => .error .missing
  | some (.int64 i) =>
      if 0 ≤ i.toInt then .ok i.toInt.toNat else .error (.notInteger (.int64 i))
  | some (.string s) =>
      match numeral? s.toList with
      | some n => .ok n
      | none => .error (.notNumeral s)
  | some v => .error (.notInteger v)

end Count

end RowGraph
