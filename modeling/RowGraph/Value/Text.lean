import RowGraph.Binary64.Layout
import RowGraph.Text.Utf8
import RowGraph.Value.Basic

/-!
# Value — display text

The text shown to a reader: strings bare, floats without an exponent, bytes read as UTF-8, arrays
between brackets.  It is made for messages and does not read back.
-/

namespace RowGraph.Value

/-- The display text of a float. -/
def floatText (x : Binary64) : String :=
  if x.isFinite then Layout.plain.write x
  else if x.isNaN then "NaN"
  else if x.negative then "-inf"
  else "inf"

mutual

def display : Value → String
  | .null => "NULL"
  | .bool b => if b then "true" else "false"
  | .int64 i => toString i.toInt
  | .float64 x => floatText x
  | .string s => s
  | .bytes bs => Utf8.decodeLossy bs
  | .array items => "[" ++ ", ".intercalate (displays items) ++ "]"

def displays : List Value → List String
  | [] => []
  | v :: vs => v.display :: displays vs

end

end RowGraph.Value
