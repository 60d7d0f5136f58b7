/-!
# Binary64 — floating-point numbers by their bits

A `Binary64` is the 64 bits of an IEEE double.  Keeping the bits makes identity decidable and
leaves the two notions of sameness apart: equality of bits is `=`, and equality of numbers is
`Binary64.equal`, under which the zeros are equal and a NaN differs from itself.
-/

namespace RowGraph

/-- An IEEE double: one sign bit, eleven exponent bits, fifty-two fraction bits. -/
structure Binary64 where
  bits : UInt64
  deriving DecidableEq, Repr

namespace Binary64

/-! ### The three fields -/

/-- The last place of the exponent's field: `2 ^ 52`. -/
abbrev exponentUnit : Nat := 0x10000000000000

/-- The place of the sign: `2 ^ 63`. -/
abbrev signUnit : Nat := 0x8000000000000000

def negative (x : Binary64) : Bool := signUnit ≤ x.bits.toNat

def exponentField (x : Binary64) : Nat := x.bits.toNat / exponentUnit % 2048

def fractionField (x : Binary64) : Nat := x.bits.toNat % exponentUnit

/-- The number with the given fields. -/
def ofFields (negative : Bool) (exponent fraction : Nat) : Binary64 :=
  ⟨.ofNat ((if negative then signUnit else 0) + exponent * exponentUnit + fraction)⟩

/-! ### Classes -/

def isFinite (x : Binary64) : Bool := x.exponentField < 2047

def isNaN (x : Binary64) : Bool := !x.isFinite && x.fractionField != 0

def isZero (x : Binary64) : Bool := x.exponentField == 0 && x.fractionField == 0

/-- The significand `m` of a finite number `m · 2 ^ q`. -/
def significand (x : Binary64) : Nat :=
  if x.exponentField = 0 then x.fractionField else exponentUnit + x.fractionField

/-- The exponent `q` of a finite number `m · 2 ^ q`. -/
def exponent (x : Binary64) : Int :=
  if x.exponentField = 0 then -1074 else (x.exponentField : Int) - 1075

/-- The next number towards zero is half as far as the next one away from it: the number is a
power of two above the least normal one. -/
def narrowBelow (x : Binary64) : Bool := x.fractionField == 0 && 1 < x.exponentField

/-! ### Equality as numbers -/

/-- Equality as numbers: zeros are equal whatever their sign, a NaN equals nothing. -/
def equal (x y : Binary64) : Bool :=
  !x.isNaN && !y.isNaN && (x == y || (x.isZero && y.isZero))

/-! ### From other numbers -/

/-- The double nearest to `digits · 10 ^ exponent`, a tie going to the even significand. -/
def ofDecimal (negative : Bool) (digits : Nat) (exponent : Int) : Binary64 :=
  let magnitude := Float.ofScientific digits (exponent < 0) exponent.natAbs
  ⟨(if negative then -magnitude else magnitude).toBits⟩

/-- The double nearest to an integer. -/
def ofInt (i : Int) : Binary64 := ofDecimal (i < 0) i.natAbs 0

/-- The double equal to an IEEE single given by its bits; a NaN keeps its payload and is quiet. -/
def ofBinary32 (bits : UInt32) : Binary64 :=
  let negative : Bool := 0x80000000 ≤ bits.toNat
  let e := bits.toNat / 0x800000 % 256
  let f := bits.toNat % 0x800000
  if e = 255 then
    ofFields negative 2047 (if f = 0 then 0 else 0x8000000000000 + f % 0x400000 * 0x20000000)
  else if e = 0 then
    if f = 0 then ofFields negative 0 0
    else ofFields negative (f.log2 + 874) ((f <<< (52 - f.log2)) - exponentUnit)
  else ofFields negative (e + 896) (f * 0x20000000)

end Binary64

end RowGraph
