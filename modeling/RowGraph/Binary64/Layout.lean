import RowGraph.Binary64.Shortest

/-!
# Binary64 — layouts of decimal text

A `Layout` is the set of decisions that turn the shortest decimal of a number into text: how ties
between decimals go, which magnitudes are written without an exponent, and whether a whole number
keeps a point.  The two formats of this library are `Layout.json` and `Layout.plain`.
-/

namespace RowGraph

/-- How a finite number is written. -/
structure Layout where
  /-- The choice between two equally near decimals. -/
  tie : Tie
  /-- Is a number whose leading digit stands for `10 ^ e` written without an exponent? -/
  positional : Int → Bool
  /-- Is a whole number written with `.0`? -/
  pointZero : Bool

namespace Layout

/-- JSON numbers: positional from `10 ^ -5` up to below `10 ^ 16`, always with a point there. -/
def json : Layout where
  tie := .even
  positional e := -5 ≤ e && e < 16
  pointZero := true

/-- Display text: never an exponent, a point only before a fraction. -/
def plain : Layout where
  tie := .up
  positional _ := true
  pointZero := false

def zeros (n : Nat) : List Char := List.replicate n '0'

/-- The digits `ds` times `10 ^ e`, without an exponent. -/
def writePositional (pointZero : Bool) (ds : List Char) (e : Int) : List Char :=
  if 0 ≤ e then ds ++ zeros e.toNat ++ (if pointZero then ['.', '0'] else [])
  else if (-e).toNat < ds.length then
    ds.take (ds.length - (-e).toNat) ++ '.' :: ds.drop (ds.length - (-e).toNat)
  else '0' :: '.' :: zeros ((-e).toNat - ds.length) ++ ds

/-- The digits `ds` with the point after the first, times `10 ^ e`; the exponent has its sign. -/
def writeScientific (ds : List Char) (e : Int) : List Char :=
  let mantissa :=
    match ds with
    | d :: f :: fs => d :: '.' :: f :: fs
    | _ => ds
  mantissa ++ 'e' :: (if e < 0 then '-' else '+') :: Nat.toDigits 10 e.natAbs

/-- The text of a decimal. -/
def writeDecimal (l : Layout) (d : Decimal) : List Char :=
  let ds := Nat.toDigits 10 d.digits
  let leading := d.exponent + ds.length - 1
  if l.positional leading then writePositional l.pointZero ds d.exponent
  else writeScientific ds leading

/-- The text of a finite number, with the sign of a negative zero kept. -/
def write (l : Layout) (x : Binary64) : String :=
  String.ofList ((if x.negative then ['-'] else []) ++ l.writeDecimal (x.shortest l.tie))

end Layout

end RowGraph
