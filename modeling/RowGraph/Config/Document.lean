import RowGraph.Config.Basic

/-!
# Config — reading settings

Settings are written as a TOML document.  The four keys hold texts and one whole number, so of
TOML's grammar only key/value lines with a simple key, the four kinds of strings, and integers are
of use; a document with anything else, a table or a date or an unknown key, is refused whether or
not it is well formed.  `Config.ofDocument?` reads the rest of the grammar in full: comments, both
line ends, escapes, line continuations, and integers in four bases with underscores.

It stands for a reader of all of TOML, and what is proved of loading settings does not depend on it.
-/

namespace RowGraph.Config

/-- The value of a setting. -/
inductive Setting where
  | text (s : String)
  | integer (n : Nat)
  deriving DecidableEq, Repr

namespace Document

/-! ### Characters -/

def isBlank (c : Char) : Bool := c == ' ' || c == '\t'

/-- Tabs, and everything but control characters. -/
def isPlain (c : Char) : Bool := c == '\t' || (0x20 ≤ c.toNat && c.toNat != 0x7F)

def isBareKeyChar (c : Char) : Bool := c.isAlphanum || c == '_' || c == '-'

def skipBlanks (cs : List Char) : List Char := cs.dropWhile isBlank

/-- What follows a line end, if the text starts with one. -/
def lineEnd? : List Char → Option (List Char)
  | '\n' :: rest => some rest
  | '\r' :: '\n' :: rest => some rest
  | _ => none

/-! ### Numerals -/

/-- The value of a digit, letters counting from ten in either case. -/
def digitValue (c : Char) : Nat :=
  if c.isDigit then c.toNat - 0x30
  else if 'a' ≤ c ∧ c ≤ 'z' then c.toNat - 0x57
  else if 'A' ≤ c ∧ c ≤ 'Z' then c.toNat - 0x37
  else 36

/-- Reads on after a digit: digits, with single underscores between them. -/
def moreDigits (base acc : Nat) : List Char → Option Nat
  | [] => some acc
  | ['_'] => none
  | '_' :: c :: rest =>
      if digitValue c < base then moreDigits base (acc * base + digitValue c) rest else none
  | c :: rest =>
      if digitValue c < base then moreDigits base (acc * base + digitValue c) rest else none

/-- Reads one or more digits. -/
def digits? (base : Nat) : List Char → Option Nat
  | [] => none
  | c :: rest => if digitValue c < base then moreDigits base (digitValue c) rest else none

/-- Reads a decimal numeral: no zero before another digit. -/
def decimal? : List Char → Option Nat
  | ['0'] => some 0
  | '0' :: _ => none
  | cs => digits? 10 cs

/-- Reads the numeral of a whole number, which may be a negative zero. -/
def integer? : List Char → Option Nat
  | '0' :: 'x' :: cs => digits? 16 cs
  | '0' :: 'o' :: cs => digits? 8 cs
  | '0' :: 'b' :: cs => digits? 2 cs
  | '+' :: cs => decimal? cs
  | '-' :: cs => (decimal? cs).filter (· == 0)
  | cs => decimal? cs

/-! ### Strings -/

/-- Puts characters in front of what was read. -/
def before (cs : List Char) (r : Option (List Char × List Char)) :
    Option (List Char × List Char) :=
  r.map fun p => (cs ++ p.1, p.2)

/-- The character of a code, unless it is a surrogate or too large. -/
def scalar? (n : Nat) : Option Char :=
  if n < 0xD800 ∨ (0xDFFF < n ∧ n < 0x110000) then some (Char.ofNat n) else none

/-- The character escaped by hexadecimal digits. -/
def coded? (cs : List Char) : Option Char :=
  if cs.all fun c => digitValue c < 16 then
    scalar? (cs.foldl (fun acc c => acc * 16 + digitValue c) 0)
  else none

/-- The character a letter stands for behind a backslash. -/
def escaped? : Char → Option Char
  | 'b' => some '\x08'
  | 't' => some '\t'
  | 'n' => some '\n'
  | 'f' => some '\x0c'
  | 'r' => some '\r'
  | '\x22' => some '\x22'
  | '\x5c' => some '\x5c'
  | _ => none

/-- The rest of a string in double quotes on one line, and what follows it. -/
def basic : List Char → Option (List Char × List Char)
  | [] => none
  | '\x22' :: rest => some ([], rest)
  | '\x5c' :: 'u' :: a :: b :: c :: d :: rest =>
      match coded? [a, b, c, d] with
      | some x => before [x] (basic rest)
      | none => none
  | '\x5c' :: 'U' :: a :: b :: c :: d :: e :: f :: g :: h :: rest =>
      match coded? [a, b, c, d, e, f, g, h] with
      | some x => before [x] (basic rest)
      | none => none
  | '\x5c' :: c :: rest =>
      match escaped? c with
      | some x => before [x] (basic rest)
      | none => none
  | c :: rest => if isPlain c then before [c] (basic rest) else none

/-- The rest of a string in single quotes on one line, and what follows it. -/
def literal : List Char → Option (List Char × List Char)
  | [] => none
  | '\x27' :: rest => some ([], rest)
  | c :: rest => if isPlain c then before [c] (literal rest) else none

/-- Does a line end follow, blanks aside? -/
def endsLine (cs : List Char) : Bool := (lineEnd? (skipBlanks cs)).isSome

/-- The rest of a string in three double quotes, and what follows it.  Up to two quotes may stand
right before the closing three.  A backslash at the end of a line leaves out everything up to the
next character that is neither blank nor line end; `joining` while that is under way. -/
def multiBasic : Bool → List Char → Option (List Char × List Char)
  | _, [] => none
  | true, ' ' :: rest => multiBasic true rest
  | true, '\t' :: rest => multiBasic true rest
  | true, '\n' :: rest => multiBasic true rest
  | true, '\r' :: '\n' :: rest => multiBasic true rest
  | _, '\x22' :: '\x22' :: '\x22' :: '\x22' :: '\x22' :: rest => some (['\x22', '\x22'], rest)
  | _, '\x22' :: '\x22' :: '\x22' :: '\x22' :: rest => some (['\x22'], rest)
  | _, '\x22' :: '\x22' :: '\x22' :: rest => some ([], rest)
  | _, '\x5c' :: 'u' :: a :: b :: c :: d :: rest =>
      match coded? [a, b, c, d] with
      | some x => before [x] (multiBasic false rest)
      | none => none
  | _, '\x5c' :: 'U' :: a :: b :: c :: d :: e :: f :: g :: h :: rest =>
      match coded? [a, b, c, d, e, f, g, h] with
      | some x => before [x] (multiBasic false rest)
      | none => none
  | _, '\x5c' :: c :: rest =>
      match escaped? c with
      | some x => before [x] (multiBasic false rest)
      | none => if endsLine (c :: rest) then multiBasic true (c :: rest) else none
  | _, '\n' :: rest => before ['\n'] (multiBasic false rest)
  | _, '\r' :: '\n' :: rest => before ['\r', '\n'] (multiBasic false rest)
  | _, c :: rest => if isPlain c then before [c] (multiBasic false rest) else none

/-- The rest of a string in three single quotes, and what follows it. -/
def multiLiteral : List Char → Option (List Char × List Char)
  | [] => none
  | '\x27' :: '\x27' :: '\x27' :: '\x27' :: '\x27' :: rest => some (['\x27', '\x27'], rest)
  | '\x27' :: '\x27' :: '\x27' :: '\x27' :: rest => some (['\x27'], rest)
  | '\x27' :: '\x27' :: '\x27' :: rest => some ([], rest)
  | '\n' :: rest => before ['\n'] (multiLiteral rest)
  | '\r' :: '\n' :: rest => before ['\r', '\n'] (multiLiteral rest)
  | c :: rest => if isPlain c then before [c] (multiLiteral rest) else none

/-- A line end right after three opening quotes is left out. -/
def skipFirstLineEnd (cs : List Char) : List Char := (lineEnd? cs).getD cs

/-! ### Settings -/

def isNumeralChar (c : Char) : Bool :=
  c.isAlphanum || c == '_' || c == '+' || c == '-' || c == '.' || c == ':'

/-- A value, and what follows it. -/
def setting? : List Char → Option (Setting × List Char)
  | '\x22' :: '\x22' :: '\x22' :: cs =>
      (multiBasic false (skipFirstLineEnd cs)).map fun p => (.text (String.ofList p.1), p.2)
  | '\x22' :: cs => (basic cs).map fun p => (.text (String.ofList p.1), p.2)
  | '\x27' :: '\x27' :: '\x27' :: cs =>
      (multiLiteral (skipFirstLineEnd cs)).map fun p => (.text (String.ofList p.1), p.2)
  | '\x27' :: cs => (literal cs).map fun p => (.text (String.ofList p.1), p.2)
  | cs => (integer? (cs.takeWhile isNumeralChar)).map fun n =>
      (.integer n, cs.dropWhile isNumeralChar)

/-- A key, bare or quoted, and what follows it. -/
def key? : List Char → Option (String × List Char)
  | '\x22' :: cs => (basic cs).map fun p => (String.ofList p.1, p.2)
  | '\x27' :: cs => (literal cs).map fun p => (String.ofList p.1, p.2)
  | cs =>
      match cs.takeWhile isBareKeyChar with
      | [] => none
      | key => some (String.ofList key, cs.dropWhile isBareKeyChar)

/-- What follows a comment, if the text starts with one. -/
def skipComment : List Char → List Char
  | '#' :: comment => comment.dropWhile isPlain
  | cs => cs

/-- What follows the end of a line that may hold a comment. -/
def afterLine? (cs : List Char) : Option (List Char) :=
  match skipComment (skipBlanks cs) with
  | [] => some []
  | rest => lineEnd? rest

/-- A line with a setting, and what follows it. -/
def assignment? (cs : List Char) : Option ((String × Setting) × List Char) := do
  let (key, rest) ← key? cs
  match skipBlanks rest with
  | '=' :: rest =>
      let (value, rest) ← setting? (skipBlanks rest)
      let rest ← afterLine? rest
      return ((key, value), rest)
  | _ => none

/-- A line, with the setting it may hold, and what follows it. -/
def line? (cs : List Char) : Option (Option (String × Setting) × List Char) :=
  match skipBlanks cs with
  | '#' :: rest => (afterLine? ('#' :: rest)).map fun next => (none, next)
  | cs =>
      match lineEnd? cs with
      | some next => some (none, next)
      | none => (assignment? cs).map fun p => (some p.1, p.2)

/-! ### Line after line

What is left behind a line is less than there was in front of it, since every reader hands on the
end of what it was given. -/

/-- The reader hands on no more than it was given. -/
def Consumes {α : Type} (read : List Char → Option (α × List Char)) : Prop :=
  ∀ cs p, read cs = some p → p.2.length ≤ cs.length

theorem length_before {ds cs : List Char} {r : Option (List Char × List Char)}
    (hr : ∀ p, r = some p → p.2.length ≤ cs.length) {p : List Char × List Char}
    (h : before ds r = some p) : p.2.length ≤ cs.length := by
  obtain ⟨q, hq, rfl⟩ := Option.map_eq_some_iff.mp h
  exact hr q hq

theorem consumes_basic : Consumes basic := by
  intro cs p h
  fun_induction basic cs generalizing p with
  | case1 | case4 | case6 | case8 | case10 => cases h
  | case2 rest =>
      cases h
      exact Nat.le_succ _
  | case3 | case5 | case7 | case9 =>
      rename_i ih
      have := length_before ih h
      simp only [List.length_cons]
      omega

theorem consumes_literal : Consumes literal := by
  intro cs p h
  fun_induction literal cs generalizing p with
  | case1 | case4 => cases h
  | case2 rest =>
      cases h
      exact Nat.le_succ _
  | case3 c rest hq hc ih => exact Nat.le_succ_of_le (length_before ih h)

theorem consumes_multiLiteral : Consumes multiLiteral := by
  intro cs p h
  fun_induction multiLiteral cs generalizing p with
  | case1 | case8 => cases h
  | case2 | case3 | case4 =>
      cases h
      simp only [List.length_cons]
      omega
  | case5 | case6 | case7 =>
      rename_i ih
      have := length_before ih h
      simp only [List.length_cons]
      omega

theorem consumes_multiBasic (joining : Bool) : Consumes (multiBasic joining) := by
  intro cs p h
  fun_induction multiBasic joining cs generalizing p with
  | case1 | case10 | case12 | case15 | case19 => cases h
  | case2 | case3 | case4 | case5 | case14 =>
      rename_i ih
      have := ih p h
      simp only [List.length_cons] at this ⊢
      omega
  | case6 | case7 | case8 =>
      cases h
      simp only [List.length_cons]
      omega
  | case9 | case11 | case13 | case16 | case17 | case18 =>
      rename_i ih
      have := length_before ih h
      simp only [List.length_cons]
      omega

theorem length_skipBlanks (cs : List Char) : (skipBlanks cs).length ≤ cs.length :=
  (List.dropWhile_sublist isBlank).length_le

theorem length_lineEnd? {cs rest : List Char} (h : lineEnd? cs = some rest) :
    rest.length < cs.length := by
  unfold lineEnd? at h
  split at h
  case h_1 | h_2 =>
      cases h
      simp only [List.length_cons]
      omega
  case h_3 => cases h

theorem length_skipFirstLineEnd (cs : List Char) : (skipFirstLineEnd cs).length ≤ cs.length := by
  unfold skipFirstLineEnd
  cases h : lineEnd? cs with
  | none => exact Nat.le_refl _
  | some rest => exact Nat.le_of_lt (length_lineEnd? h)

/-- What is made of what was read changes nothing about what is left. -/
theorem Consumes.of_map {α β : Type} {read : List Char → Option (α × List Char)}
    (hr : Consumes read) {g : α × List Char → β × List Char} {cs : List Char} {q : β × List Char}
    (h : (read cs).map g = some q) (hg : ∀ p, (g p).2 = p.2) : q.2.length ≤ cs.length := by
  obtain ⟨p, hp, rfl⟩ := Option.map_eq_some_iff.mp h
  rw [hg]
  exact hr cs p hp

theorem consumes_setting? : Consumes setting? := by
  intro cs p h
  unfold setting? at h
  split at h
  case h_1 cs =>
      have := (consumes_multiBasic false).of_map h fun _ => rfl
      have := length_skipFirstLineEnd cs
      simp only [List.length_cons]
      omega
  case h_2 cs _ => exact Nat.le_succ_of_le (consumes_basic.of_map h fun _ => rfl)
  case h_3 cs =>
      have := consumes_multiLiteral.of_map h fun _ => rfl
      have := length_skipFirstLineEnd cs
      simp only [List.length_cons]
      omega
  case h_4 cs _ => exact Nat.le_succ_of_le (consumes_literal.of_map h fun _ => rfl)
  case h_5 =>
      obtain ⟨n, -, rfl⟩ := Option.map_eq_some_iff.mp h
      exact (List.dropWhile_sublist isNumeralChar).length_le

theorem consumes_key? : Consumes key? := by
  intro cs p h
  unfold key? at h
  split at h
  case h_1 cs => exact Nat.le_succ_of_le (consumes_basic.of_map h fun _ => rfl)
  case h_2 cs => exact Nat.le_succ_of_le (consumes_literal.of_map h fun _ => rfl)
  case h_3 =>
      split at h
      case h_1 => cases h
      case h_2 =>
          cases h
          exact (List.dropWhile_sublist isBareKeyChar).length_le

theorem length_skipComment (cs : List Char) : (skipComment cs).length ≤ cs.length := by
  unfold skipComment
  split
  case h_1 => exact Nat.le_succ_of_le (List.dropWhile_sublist isPlain).length_le
  case h_2 => exact Nat.le_refl _

/-- What is left behind a line is less than the line, unless that is empty and the last. -/
theorem length_afterLine? {cs rest : List Char} (h : afterLine? cs = some rest) :
    rest.length ≤ cs.length ∧ (cs ≠ [] → rest.length < cs.length) := by
  have hblanks := length_skipBlanks cs
  have hcomment := length_skipComment (skipBlanks cs)
  unfold afterLine? at h
  split at h
  case h_1 =>
      cases h
      exact ⟨Nat.zero_le _, List.length_pos_iff.mpr⟩
  case h_2 =>
      have hend := length_lineEnd? h
      exact ⟨by omega, fun _ => by omega⟩

theorem length_assignment? {cs rest : List Char} {e : String × Setting}
    (h : assignment? cs = some (e, rest)) : rest.length < cs.length := by
  unfold assignment? at h
  obtain ⟨⟨key, afterKey⟩, hk, h⟩ := Option.bind_eq_some_iff.mp h
  dsimp only at h
  split at h
  case h_1 behind hs =>
      obtain ⟨⟨value, afterValue⟩, hv, h⟩ := Option.bind_eq_some_iff.mp h
      obtain ⟨next, hn, h⟩ := Option.bind_eq_some_iff.mp h
      cases h
      have hk := consumes_key? cs _ hk
      have hs' := length_skipBlanks afterKey
      have hv := consumes_setting? _ _ hv
      have hb := length_skipBlanks behind
      have hn := (length_afterLine? hn).1
      rw [hs, List.length_cons] at hs'
      dsimp only at hk hv hb hn
      omega
  case h_2 => cases h

/-- Every line takes up a character at least. -/
theorem length_line? {cs : List Char} {p : Option (String × Setting) × List Char}
    (h : line? cs = some p) : p.2.length < cs.length := by
  have hle := length_skipBlanks cs
  unfold line? at h
  split at h
  case h_1 rest hs =>
      rw [hs] at hle
      obtain ⟨next, hn, rfl⟩ := Option.map_eq_some_iff.mp h
      exact Nat.lt_of_lt_of_le ((length_afterLine? hn).2 (List.cons_ne_nil _ _)) hle
  case h_2 =>
      split at h
      case h_1 next hn =>
          cases h
          exact Nat.lt_of_lt_of_le (length_lineEnd? hn) hle
      case h_2 =>
          obtain ⟨⟨e, next⟩, he, rfl⟩ := Option.map_eq_some_iff.mp h
          exact Nat.lt_of_lt_of_le (length_assignment? he) hle

/-- The settings of a document, line after line. -/
def entries? (cs : List Char) : Option (List (String × Setting)) :=
  if skipBlanks cs = [] then some []
  else
    match h : line? cs with
    | none => none
    | some (e, next) =>
        have := length_line? h
        (entries? next).map (e.toList ++ ·)
termination_by cs.length

/-- The document without a byte order mark. -/
def skipMark : List Char → List Char
  | '\uFEFF' :: cs => cs
  | cs => cs

/-- The settings of a document. -/
def settings? (s : String) : Option (List (String × Setting)) := entries? (skipMark s.toList)

end Document

/-- Adds one setting to those read before; each key counts once. -/
def add? (c : Config) : String × Setting → Option Config
  | ("projectId", .text s) =>
      if c.projectId.isNone then some { c with projectId := some s } else none
  | ("dataset", .text s) =>
      if c.dataset.isNone then some { c with dataset := some s } else none
  | ("location", .text s) =>
      if c.location.isNone then some { c with location := some s } else none
  | ("defaultLimit", .integer n) =>
      if c.defaultLimit.isNone && n < UInt64.size then some { c with defaultLimit := some n }
      else none
  | _ => none

/-- The settings a document describes, valid or not. -/
def ofDocument? (s : String) : Option Config := do
  let settings ← Document.settings? s
  settings.foldlM add? empty

end RowGraph.Config
