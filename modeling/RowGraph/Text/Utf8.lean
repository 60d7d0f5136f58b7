/-!
# Text — UTF-8

`Utf8.encode` gives the bytes of a text.  `Utf8.decodeLossy` reads any byte sequence as text.
Well-formed parts come out as the characters they encode; each maximal ill-formed part comes out as
one U+FFFD.  The reader goes byte by byte with at most one character pending, so it is a structural
recursion over the bytes.
-/

namespace RowGraph.Utf8

/-- The bytes of a text. -/
def encode (s : String) : List UInt8 := s.toUTF8.data.toList

/-- A character of which some bytes have been read: its bits so far, how many bytes are still
due, and the range the next one has to lie in. -/
structure Pending where
  bits : Nat
  due : Nat
  low : Nat
  high : Nat
  deriving DecidableEq, Repr

/-- U+FFFD, written for what cannot be read. -/
def replacement : Char := Char.ofNat 0xFFFD

/-- What a first byte leads to: the characters it settles, and the character it opens.

The ranges leave out overlong forms, surrogates and code points past U+10FFFF. -/
def start (b : Nat) : List Char × Option Pending :=
  if b < 0x80 then ([Char.ofNat b], none)
  else if b < 0xC2 then ([replacement], none)
  else if b < 0xE0 then ([], some ⟨b - 0xC0, 1, 0x80, 0xBF⟩)
  else if b = 0xE0 then ([], some ⟨0, 2, 0xA0, 0xBF⟩)
  else if b = 0xED then ([], some ⟨0xD, 2, 0x80, 0x9F⟩)
  else if b < 0xF0 then ([], some ⟨b - 0xE0, 2, 0x80, 0xBF⟩)
  else if b = 0xF0 then ([], some ⟨0, 3, 0x90, 0xBF⟩)
  else if b < 0xF4 then ([], some ⟨b - 0xF0, 3, 0x80, 0xBF⟩)
  else if b = 0xF4 then ([], some ⟨4, 3, 0x80, 0x8F⟩)
  else ([replacement], none)

/-- Takes one more byte into a pending character. -/
def Pending.push (p : Pending) (b : Nat) : List Char × Option Pending :=
  let bits := p.bits * 64 + b % 64
  if p.due ≤ 1 then ([Char.ofNat bits], none) else ([], some ⟨bits, p.due - 1, 0x80, 0xBF⟩)

/-- Reads the bytes that follow a pending character, or stand at a character's start. -/
def decodeFrom : Option Pending → List UInt8 → List Char
  | none, [] => []
  | some _, [] => [replacement]
  | none, b :: rest => (start b.toNat).1 ++ decodeFrom (start b.toNat).2 rest
  | some p, b :: rest =>
      if p.low ≤ b.toNat ∧ b.toNat ≤ p.high then
        (p.push b.toNat).1 ++ decodeFrom (p.push b.toNat).2 rest
      else replacement :: (start b.toNat).1 ++ decodeFrom (start b.toNat).2 rest

/-- The text of a byte sequence, each maximal ill-formed part replaced by U+FFFD. -/
def decodeLossy (bytes : List UInt8) : String := String.ofList (decodeFrom none bytes)

/-- The text of a byte sequence that is UTF-8 throughout. -/
def decode? (bytes : List UInt8) : Option String := String.fromUTF8? ⟨bytes.toArray⟩

end RowGraph.Utf8
