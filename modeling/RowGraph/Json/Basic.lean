import RowGraph.Binary64.Layout
import RowGraph.Upsert

/-!
# Json — documents and their compact text

A `Json` document keeps the members of an object in order, and its numbers in two kinds: the
integers that were written as integers, and floats.  `Json.text` writes a document without
blanks.  Members are written as they stand, so a repeated name is written twice.
-/

namespace RowGraph

namespace Json

/-- A JSON number: an integer between `-2 ^ 63` and `2 ^ 64 - 1`, or a finite float. -/
inductive Number where
  | integer (i : Int)
  | float (x : Binary64)
  deriving DecidableEq, Repr

/-- The number an integer numeral stands for: itself within 64 bits, signed or unsigned, and the
nearest float beyond. -/
def Number.ofInt (i : Int) : Number :=
  if Int64.minValue.toInt ≤ i ∧ i < UInt64.size then .integer i else .float (.ofInt i)

end Json

/-- A JSON document. -/
inductive Json where
  | null
  | bool (b : Bool)
  | number (n : Json.Number)
  | string (s : String)
  | array (items : List Json)
  | object (members : List (String × Json))
  deriving Repr

namespace Json

instance : Inhabited Json := ⟨.null⟩

/-! ### Strings -/

def hexDigit (n : Nat) : Char := (Nat.toDigits 16 n).headD '0'

/-- How a character is written between quotes: quote and backslash behind a backslash, control
characters below U+0020 by their letter or their code, and everything else as it is. -/
def escape (c : Char) : List Char :=
  match c.toNat with
  | 0x22 => ['\x5c', '\x22']
  | 0x5C => ['\x5c', '\x5c']
  | 0x08 => ['\x5c', 'b']
  | 0x09 => ['\x5c', 't']
  | 0x0A => ['\x5c', 'n']
  | 0x0C => ['\x5c', 'f']
  | 0x0D => ['\x5c', 'r']
  | n =>
      if n < 0x20 then ['\x5c', 'u', '0', '0', hexDigit (n / 16), hexDigit (n % 16)] else [c]

def quote (s : String) : String :=
  "\"" ++ String.ofList (s.toList.flatMap escape) ++ "\""

/-! ### Documents -/

/-- A float that JSON has no numeral for is written as null. -/
def floatText (x : Binary64) : String :=
  if x.isFinite then Layout.json.write x else "null"

def Number.text : Number → String
  | .integer i => toString i
  | .float x => floatText x

/-- The texts of an array's items, between brackets. -/
def bracket (items : List String) : String := "[" ++ ",".intercalate items ++ "]"

/-- The texts of an object's members, between braces. -/
def brace (members : List String) : String := "\x7b" ++ ",".intercalate members ++ "\x7d"

/-- The text of one member, given that of its value. -/
def member (name value : String) : String := quote name ++ ":" ++ value

mutual

/-- The compact text of a document. -/
def text : Json → String
  | .null => "null"
  | .bool b => if b then "true" else "false"
  | .number n => n.text
  | .string s => quote s
  | .array items => bracket (texts items)
  | .object members => brace (memberTexts members)

def texts : List Json → List String
  | [] => []
  | j :: js => j.text :: texts js

def memberTexts : List (String × Json) → List String
  | [] => []
  | (name, j) :: rest => member name j.text :: memberTexts rest

end

/-! ### Objects as maps -/

/-- The object with the given members, the last of a repeated name at the place of the first. -/
def ofMembers (members : List (String × Json)) : Json :=
  .object (members.foldl (fun acc m => upsert (·.1) m acc) [])

end Json

end RowGraph
