import Mathlib.Data.List.Basic
import RowGraph.Sql.Statement

/-!
# Proofs — Sql — text read back as lexemes

A reader of SQL text goes through its characters one at a time, always in the middle of at most
one lexeme.  `Lexeme.read` gives the lexemes of a text, or nothing if the text has a character
that starts none, a quotation without an end, or an unfinished sign.

**The written form of a fragment reads back** (`Fragment.read_text`): if its bare texts and its
parameters' names are words (`Fragment.WellNamed`), the lexemes of the text are those of the
chunks, in order.  Identifiers are arbitrary: quoting keeps each of them apart from everything
around it.  The other chunks are kept apart by `Chunk.spaced`, which sets a blank between two
neighbours whenever the second could continue the first.  So **no chunk reaches into another**
(`Fragment.reads_back`): cut between two chunks, a text falls into texts that read as it does.
-/

namespace RowGraph.Sql

/-! ### Lexemes -/

/-- What a reader of SQL text tells apart. -/
inductive Lexeme where
  /-- A quoted identifier, without its quotes and backslashes. -/
  | ident (name : String)
  /-- The name of a placeholder. -/
  | param (name : String)
  /-- A run of letters, digits and underscores. -/
  | word (text : String)
  /-- A comparison sign or a punctuation mark. -/
  | mark (t : Token)
  deriving DecidableEq, Repr

def isWordChar (c : Char) : Bool := c.isAlphanum || c == '_'

/-- What a reader is in the middle of. -/
inductive Reading where
  | nothing
  | word (cs : List Char)
  | param (cs : List Char)
  | ident (cs : List Char)
  /-- An identifier, behind a backslash. -/
  | escaped (cs : List Char)
  /-- A sign that is `alone` by itself and `equal` before an equals sign. -/
  | sign (alone : Option Token) (equal : Token)

namespace Reading

/-- The lexeme a character starts or is, if it can stand at the beginning of one. -/
def start : Char → Option (List Lexeme × Reading)
  | ' ' => some ([], .nothing)
  | '\x60' => some ([], .ident [])
  | '@' => some ([], .param [])
  | '=' => some ([.mark .eq], .nothing)
  | '!' => some ([], .sign none .ne)
  | '>' => some ([], .sign (some .gt) .ge)
  | '<' => some ([], .sign (some .lt) .le)
  | '(' => some ([.mark .lparen], .nothing)
  | ')' => some ([.mark .rparen], .nothing)
  | ',' => some ([.mark .comma], .nothing)
  | '.' => some ([.mark .dot], .nothing)
  | c => if isWordChar c then some ([], .word [c]) else none

/-- A character that goes on with what is being read. -/
def extend : Reading → Char → Option (List Lexeme × Reading)
  | .word cs, c => if isWordChar c then some ([], .word (cs ++ [c])) else none
  | .param cs, c => if isWordChar c then some ([], .param (cs ++ [c])) else none
  | .ident cs, c =>
      if c = '\x60' then some ([.ident (.ofList cs)], .nothing)
      else if c = '\x5c' then some ([], .escaped cs)
      else some ([], .ident (cs ++ [c]))
  | .escaped cs, c => some ([], .ident (cs ++ [c]))
  | .sign _ equal, c => if c = '=' then some ([.mark equal], .nothing) else none
  | .nothing, _ => none

/-- What has been read if nothing goes on with it. -/
def close : Reading → Option (List Lexeme)
  | .nothing => some []
  | .word cs => some [.word (.ofList cs)]
  | .param cs => if cs = [] then none else some [.param (.ofList cs)]
  | .sign alone _ => alone.map fun t => [.mark t]
  | .ident _ | .escaped _ => none

/-- One character: it goes on with what is being read, or ends it and starts the next. -/
def step (s : Reading) (c : Char) : Option (List Lexeme × Reading) :=
  (s.extend c).or (s.close.bind fun ls => (start c).map fun r => (ls ++ r.1, r.2))

/-- The lexemes of the characters, the first of them in the middle of `s`. -/
def scan : Reading → List Char → Option (List Lexeme)
  | s, [] => s.close
  | s, c :: cs => (s.step c).bind fun r => (r.2.scan cs).map (r.1 ++ ·)

end Reading

/-- The lexemes of a text. -/
def Lexeme.read (text : String) : Option (List Lexeme) := Reading.nothing.scan text.toList

namespace Reading

/-! ### Scanning -/

theorem scan_cons {s t : Reading} {c : Char} {ls : List Lexeme} (h : s.step c = some (ls, t))
    (cs : List Char) : s.scan (c :: cs) = (t.scan cs).map (ls ++ ·) := by
  rw [scan, h, Option.bind_some]

theorem step_of_extend {s : Reading} {c : Char} {r : List Lexeme × Reading}
    (h : s.extend c = some r) : s.step c = some r := by
  rw [step, h, Option.some_or]

theorem step_nothing (c : Char) : Reading.nothing.step c = start c := by
  rw [step, extend, close, Option.none_or, Option.bind_some]
  simp

/-- The reading ends where nothing goes on with it. -/
theorem scan_of_not_extend {s : Reading} {cs : List Char} {ls : List Lexeme}
    (h : ∀ c ∈ cs.head?, s.extend c = none) (hs : s.close = some ls) :
    s.scan cs = (Reading.nothing.scan cs).map (ls ++ ·) := by
  cases cs with
  | nil => rw [scan, scan, hs, close, Option.map_some, List.append_nil]
  | cons c cs =>
      have hc : s.extend c = none := h c rfl
      have h₁ : s.step c = (start c).map fun r => (ls ++ r.1, r.2) := by
        rw [step, hc, hs, Option.none_or, Option.bind_some]
      rw [scan, scan, h₁, step_nothing]
      cases start c with
      | none => rfl
      | some r => simp [Function.comp_def]

/-- A reading that goes on with the characters of words. -/
theorem scan_run {s : List Char → Reading}
    (hs : ∀ cs c, isWordChar c → (s cs).extend c = some ([], s (cs ++ [c]))) (cs : List Char)
    {w : List Char} (rest : List Char) (h : ∀ c ∈ w, isWordChar c) :
    (s cs).scan (w ++ rest) = (s (cs ++ w)).scan rest := by
  induction w generalizing cs with
  | nil => rw [List.nil_append, List.append_nil]
  | cons c w ih =>
      have hc : (s cs).step c = some ([], s (cs ++ [c])) :=
        step_of_extend (hs cs c (h c (by simp)))
      rw [List.cons_append, scan_cons hc, ih (cs ++ [c]) fun d hd => h d (by simp [hd])]
      simp

theorem scan_word (cs : List Char) {w : List Char} (rest : List Char)
    (h : ∀ c ∈ w, isWordChar c) :
    (Reading.word cs).scan (w ++ rest) = (Reading.word (cs ++ w)).scan rest :=
  scan_run (s := .word) (fun _ _ hc => if_pos hc) cs rest h

theorem scan_param (cs : List Char) {w : List Char} (rest : List Char)
    (h : ∀ c ∈ w, isWordChar c) :
    (Reading.param cs).scan (w ++ rest) = (Reading.param (cs ++ w)).scan rest :=
  scan_run (s := .param) (fun _ _ hc => if_pos hc) cs rest h

/-- A quotation is read to its end, whatever it quotes. -/
theorem scan_ident (cs name rest : List Char) :
    (Reading.ident cs).scan (name.flatMap Chunk.escapeIdent ++ '\x60' :: rest) =
      (Reading.nothing.scan rest).map (.ident (.ofList (cs ++ name)) :: ·) := by
  induction name generalizing cs with
  | nil =>
      have h : (Reading.ident cs).step '\x60' = some ([.ident (.ofList cs)], .nothing) :=
        step_of_extend rfl
      rw [List.flatMap_nil, List.nil_append, List.append_nil, scan_cons h]
      rfl
  | cons c name ih =>
      rw [List.flatMap_cons, List.append_assoc, List.append_cons cs c name]
      by_cases hc : c = '\x60' ∨ c = '\x5c'
      · -- the escape and the character it escapes
        have he : Chunk.escapeIdent c = ['\x5c', c] := if_pos hc
        have h₁ : (Reading.ident cs).step '\x5c' = some ([], .escaped cs) := rfl
        have h₂ : (Reading.escaped cs).step c = some ([], .ident (cs ++ [c])) := rfl
        rw [he, List.cons_append, List.cons_append, scan_cons h₁, scan_cons h₂, List.nil_append, ih]
        simp [Function.comp_def]
      · obtain ⟨h₁, h₂⟩ := not_or.mp hc
        have he : Chunk.escapeIdent c = [c] := if_neg hc
        have h : (Reading.ident cs).step c = some ([], .ident (cs ++ [c])) :=
          step_of_extend (by rw [extend, if_neg h₁, if_neg h₂])
        rw [he, List.cons_append, scan_cons h, List.nil_append, ih]
        simp [Function.comp_def]

end Reading

/-! ### The lexemes of a fragment -/

/-- The words of a keyword, or the sign itself. -/
def Token.lexemes (t : Token) : List Lexeme :=
  if t.isWord then (t.text.toList.splitOn ' ').map fun w => .word (.ofList w) else [.mark t]

def Chunk.lexemes : Chunk → List Lexeme
  | .token t => t.lexemes
  | .ident name => [.ident name]
  | .raw text => [.word text]
  | .number n => [.word (toString n)]
  | .param name _ => [.param name]

def Fragment.lexemes (f : Fragment) : List Lexeme := f.flatMap Chunk.lexemes

/-- A run of letters, digits and underscores. -/
def IsWord (w : List Char) : Prop := w ≠ [] ∧ ∀ c ∈ w, isWordChar c

theorem isWord_iff {w : List Char} : (!w.isEmpty && w.all isWordChar) = true ↔ IsWord w := by
  simp [IsWord]

-- going through the characters of `w`, not through all there are
instance (w : List Char) : Decidable (IsWord w) := decidable_of_iff _ isWord_iff

/-- Bare texts and names of parameters are words; identifiers are arbitrary. -/
def Chunk.WellNamed : Chunk → Prop
  | .raw text => IsWord text.toList
  | .param name _ => IsWord name.toList
  | _ => True

def Fragment.WellNamed (f : Fragment) : Prop := ∀ c ∈ f, c.WellNamed

instance (c : Chunk) : Decidable c.WellNamed :=
  match c with
  | .raw _ | .param _ _ => inferInstanceAs (Decidable (IsWord _))
  | .token _ | .ident _ | .number _ => isTrue trivial

instance (f : Fragment) : Decidable f.WellNamed :=
  inferInstanceAs (Decidable (∀ c ∈ f, c.WellNamed))

/-- The characters behind a chunk do not go on with it. -/
def Chunk.Apart (c : Chunk) (rest : List Char) : Prop :=
  ∀ d ∈ rest.head?, (c.isWord → isWordChar d = false) ∧ (c.isOperator → d ≠ '=')

/-! ### Chunk by chunk -/

namespace Reading

theorem scan_blank (rest : List Char) :
    Reading.nothing.scan (' ' :: rest) = Reading.nothing.scan rest := by
  have h : Reading.nothing.step ' ' = some ([], .nothing) := rfl
  rw [scan_cons h]; simp

theorem start_of_isWordChar {c : Char} (h : isWordChar c) : start c = some ([], .word [c]) := by
  unfold start
  split
  case h_12 => exact if_pos h
  all_goals exact absurd h (by decide)

/-- A word is read up to where it ends. -/
theorem scan_isWord {w : List Char} (hw : IsWord w) {rest : List Char}
    (hr : ∀ d ∈ rest.head?, isWordChar d = false) :
    Reading.nothing.scan (w ++ rest) =
      (Reading.nothing.scan rest).map (.word (.ofList w) :: ·) := by
  obtain ⟨hne, hw⟩ := hw
  cases w with
  | nil => exact absurd rfl hne
  | cons c w =>
      have hc : Reading.nothing.step c = some ([], .word [c]) := by
        rw [step_nothing, start_of_isWordChar (hw c (by simp))]
      have hx : ∀ d ∈ rest.head?, (Reading.word (c :: w)).extend d = none := fun d hd => by
        rw [extend, hr d hd]; rfl
      rw [List.cons_append, scan_cons hc, scan_word [c] rest fun d hd => hw d (by simp [hd])]
      rw [List.singleton_append, scan_of_not_extend hx rfl]
      simp [Function.comp_def]

/-- Words with a blank between each two are read one by one. -/
theorem scan_words {ws : List (List Char)} (hne : ws ≠ []) (hw : ∀ w ∈ ws, IsWord w)
    {rest : List Char} (hr : ∀ d ∈ rest.head?, isWordChar d = false) :
    Reading.nothing.scan ([' '].intercalate ws ++ rest) =
      (Reading.nothing.scan rest).map ((ws.map fun w => .word (.ofList w)) ++ ·) := by
  induction ws with
  | nil => exact absurd rfl hne
  | cons w ws ih =>
      cases ws with
      | nil => simpa using scan_isWord (hw w (by simp)) hr
      | cons v ws =>
          have hb : ∀ d ∈ (' ' :: ([' '].intercalate (v :: ws) ++ rest)).head?,
              isWordChar d = false := fun d hd => by
            obtain rfl : ' ' = d := Option.some.inj hd
            decide
          rw [List.intercalate_cons_cons, List.append_assoc, List.append_assoc,
            List.singleton_append, scan_isWord (hw w (by simp)) hb, scan_blank,
            ih (by simp) fun u hu => hw u (by simp [hu])]
          simp [Function.comp_def]

end Reading

/-- The written form of a keyword is a run of words. -/
theorem Token.isWord_of_mem_splitOn {t : Token} (h : t.isWord) :
    ∀ w ∈ t.text.toList.splitOn ' ', IsWord w := by
  have hall : ∀ t ∈ all, t.isWord → ∀ w ∈ t.text.toList.splitOn ' ', IsWord w := by decide
  exact hall t t.mem_all h

/-- A sign is read up to its end, which an equals sign may be. -/
theorem Token.scan_mark {t : Token} (ht : ¬ t.isWord) {rest : List Char}
    (hr : ∀ d ∈ rest.head?, t.isOperator → d ≠ '=') :
    Reading.nothing.scan (t.text.toList ++ rest) =
      (Reading.nothing.scan rest).map (.mark t :: ·) := by
  -- a sign that could go on with `=`, and does not
  have alone : ∀ {c : Char} {u v : Token}, u.isOperator →
      (∀ d ∈ rest.head?, u.isOperator → d ≠ '=') →
      Reading.nothing.step c = some ([], .sign (some u) v) →
      Reading.nothing.scan (c :: rest) = (Reading.nothing.scan rest).map (.mark u :: ·) := by
    intro c u v hu hr h
    have hx : ∀ d ∈ rest.head?, (Reading.sign (some u) v).extend d = none :=
      fun d hd => if_neg (hr d hd hu)
    rw [Reading.scan_cons h, Reading.scan_of_not_extend hx rfl]
    simp [Function.comp_def]
  -- a sign of one character, then one of two
  have one : ∀ {c : Char} {u : Token}, Reading.nothing.step c = some ([.mark u], .nothing) →
      Reading.nothing.scan (c :: rest) = (Reading.nothing.scan rest).map (.mark u :: ·) :=
    fun h => Reading.scan_cons h rest
  have two : ∀ {c : Char} {a : Option Token} {u : Token},
      Reading.nothing.step c = some ([], .sign a u) →
      Reading.nothing.scan (c :: '=' :: rest) = (Reading.nothing.scan rest).map (.mark u :: ·) := by
    intro c a u h
    have h' : (Reading.sign a u).step '=' = some ([.mark u], .nothing) := rfl
    rw [Reading.scan_cons h, Reading.scan_cons h']
    simp [Function.comp_def]
  cases t
  case eq => exact one rfl
  case lparen => exact one rfl
  case rparen => exact one rfl
  case comma => exact one rfl
  case dot => exact one rfl
  case ne => exact two rfl
  case ge => exact two rfl
  case le => exact two rfl
  case gt => exact alone rfl hr rfl
  case lt => exact alone rfl hr rfl
  all_goals exact absurd rfl ht

/-- A token is read up to its end. -/
theorem Token.scan_text {t : Token} {rest : List Char} (hr : (Chunk.token t).Apart rest) :
    Reading.nothing.scan (t.text.toList ++ rest) =
      (Reading.nothing.scan rest).map (t.lexemes ++ ·) := by
  by_cases h : t.isWord
  · have hr' : ∀ d ∈ rest.head?, isWordChar d = Bool.false := fun d hd => (hr d hd).1 h
    rw [lexemes, if_pos h,
      ← Reading.scan_words (List.splitOn_ne_nil _ _) (isWord_of_mem_splitOn h) hr',
      List.intercalate_splitOn]
  · rw [lexemes, if_neg h]
    exact scan_mark h fun d hd => (hr d hd).2

theorem isWord_toString (n : Nat) : IsWord (toString n).toList := by
  rw [Nat.toString_eq_repr, Nat.toList_repr]
  refine ⟨Nat.toDigits_ne_nil, fun c hc => ?_⟩
  have hd : c.isDigit := Nat.isDigit_of_mem_toDigits (by decide) (by decide) hc
  simp [isWordChar, Char.isAlphanum, hd]

namespace Chunk

/-- A chunk is read up to its end. -/
theorem scan_text {c : Chunk} (hc : c.WellNamed) {rest : List Char} (hr : c.Apart rest) :
    Reading.nothing.scan (c.text.toList ++ rest) =
      (Reading.nothing.scan rest).map (c.lexemes ++ ·) := by
  have hw : c.isWord → ∀ d ∈ rest.head?, isWordChar d = false := fun h d hd => (hr d hd).1 h
  cases c with
  | token t => exact Token.scan_text hr
  | ident name =>
      have h : Reading.nothing.step '\x60' = some ([], .ident []) := rfl
      have hq : "\x60".toList = ['\x60'] := by decide
      rw [text, quoteIdent, String.toList_append, String.toList_append, hq, String.toList_ofList,
        List.append_assoc, List.append_assoc, List.singleton_append, List.singleton_append,
        Reading.scan_cons h, Reading.scan_ident]
      simp [lexemes, Function.comp_def]
  | raw text =>
      rw [Chunk.text, Reading.scan_isWord hc (hw rfl), String.ofList_toList]
      rfl
  | number n =>
      rw [text, Reading.scan_isWord (isWord_toString n) (hw rfl), String.ofList_toList]
      rfl
  | param name v =>
      have h : Reading.nothing.step '@' = some ([], .param []) := rfl
      have hx : ∀ d ∈ rest.head?, (Reading.param name.toList).extend d = none := fun d hd => by
        rw [Reading.extend, hw rfl d hd]; rfl
      have hp : (Reading.param name.toList).close = some [.param name] := by
        rw [Reading.close, if_neg hc.1, String.ofList_toList]
      have ha : "@".toList = ['@'] := by decide
      rw [text, String.toList_append, ha, List.append_assoc, List.singleton_append,
        Reading.scan_cons h, Reading.scan_param [] rest hc.2, List.nil_append,
        Reading.scan_of_not_extend hx hp]
      simp [lexemes, Function.comp_def]

/-- Only punctuation follows a word or a comparison sign without a blank. -/
theorem isPunctuation_of_spaced {c d : Chunk} (h : c.spaced d = false)
    (hc : c.isWord ∨ c.isOperator) : ∃ t, d = .token t ∧ t.isPunctuation := by
  unfold spaced at h
  split at h
  case h_1 => exact ⟨_, rfl, rfl⟩
  case h_2 => exact ⟨_, rfl, rfl⟩
  case h_3 => exact ⟨_, rfl, rfl⟩
  case h_4 => exact absurd hc (by decide)
  case h_5 => exact absurd hc (by decide)
  case h_6 => exact absurd h (by decide)
  case h_7 => exact ⟨_, rfl, rfl⟩
  case h_8 => exact absurd h (by decide)
  case h_9 => exact ⟨_, rfl, rfl⟩
  case h_10 =>
      simp only [Bool.or_eq_false_iff, Bool.and_eq_false_iff] at h
      obtain ⟨⟨h₁, h₂⟩, h₃⟩ := h
      have hw : c.isWord := hc.resolve_right (by simp [h₁])
      have hd : d.isWord = false := h₃.resolve_left (by simp [hw])
      cases d with
      | token t =>
          simp only [isWord, isOperator, Token.isWord] at hd h₂
          exact ⟨t, rfl, by simpa [h₂] using hd⟩
      | _ => cases hd

theorem apart_nil (c : Chunk) : c.Apart [] := fun d hd => by cases hd

/-- The blanks `spaced` asks for, and no more, keep a chunk apart from what follows it. -/
theorem apart_spaced (c d : Chunk) (rest : List Char) :
    c.Apart ((if c.spaced d then " " else "").toList ++ (d.text.toList ++ rest)) := by
  by_cases h : c.spaced d
  · rw [if_pos h]
    intro e he
    obtain rfl : ' ' = e := Option.some.inj he
    exact ⟨fun _ => by decide, fun _ => by decide⟩
  · rw [if_neg h]
    -- without a blank only punctuation follows, except where nothing could go on anyway
    by_cases hc : c.isWord ∨ c.isOperator
    · obtain ⟨t, rfl, ht⟩ := isPunctuation_of_spaced (by simpa using h) hc
      have hall : ∀ t ∈ Token.all, t.isPunctuation →
          t.text.toList ≠ [] ∧ t.text.toList.all fun e => !isWordChar e && e != '=' := by decide
      obtain ⟨hne, hm⟩ := hall t t.mem_all ht
      intro e he
      rw [text, String.toList_empty, List.nil_append, List.head?_append_of_ne_nil _ hne] at he
      have hme := List.all_eq_true.mp hm e (List.mem_of_mem_head? he)
      simp only [Bool.and_eq_true, Bool.not_eq_true', bne_iff_ne] at hme
      exact ⟨fun _ => hme.1, fun _ => hme.2⟩
    · exact fun e _ => ⟨fun h => absurd (.inl h) hc, fun h => absurd (.inr h) hc⟩

end Chunk

/-! ### The whole text -/

namespace Fragment

theorem wellNamed_append {f g : Fragment} : WellNamed (f ++ g) ↔ WellNamed f ∧ WellNamed g :=
  List.forall_mem_append

theorem lexemes_append (f g : Fragment) : lexemes (f ++ g) = lexemes f ++ lexemes g :=
  List.flatMap_append

theorem scan_text : ∀ {f : Fragment}, f.WellNamed →
    Reading.nothing.scan f.text.toList = some f.lexemes
  | [], _ => rfl
  | [c], h => by
      have hc : c.WellNamed := h c (by simp)
      have := c.scan_text hc c.apart_nil
      rw [List.append_nil] at this
      rw [text, this]
      rfl
  | c :: d :: rest, h => by
      -- the rest of the text begins with the next chunk's, which `spaced` keeps apart
      have hc : c.WellNamed := h c (by simp)
      have ih := scan_text (f := d :: rest) fun e he => h e (by simp [he])
      have hd : ∃ cs, (text (d :: rest)).toList = d.text.toList ++ cs := by
        cases rest with
        | nil => exact ⟨[], (List.append_nil _).symm⟩
        | cons e rest =>
            exact ⟨_, by rw [text, String.toList_append, String.toList_append, List.append_assoc]⟩
      obtain ⟨cs, hcs⟩ := hd
      have ha := c.apart_spaced d cs
      rw [← hcs] at ha
      rw [text, String.toList_append, String.toList_append, List.append_assoc,
        c.scan_text hc ha]
      by_cases hs : c.spaced d
      · rw [if_pos hs]
        show ((Reading.nothing.scan (' ' :: (text (d :: rest)).toList)).map _) = _
        rw [Reading.scan_blank, ih]
        rfl
      · rw [if_neg hs]
        show ((Reading.nothing.scan (text (d :: rest)).toList).map _) = _
        rw [ih]
        rfl

/-- **The written form of a fragment reads back**: the lexemes of the text are those of the
chunks, in order. -/
theorem read_text {f : Fragment} (h : f.WellNamed) : Lexeme.read f.text = some f.lexemes :=
  scan_text h

/-- **No chunk reaches into another.**  A fragment is read as the lexemes of its chunks, in order.
Cut between any two of its chunks, it is read in two parts as it is read as a whole: what is
quoted ends where its chunk does, and neighbours do not merge. -/
theorem reads_back {f : Fragment} (h : f.WellNamed) :
    Lexeme.read f.text = some f.lexemes ∧
      ∀ g k : Fragment, f = g ++ k → ∃ ls ms, Lexeme.read g.text = some ls ∧
        Lexeme.read k.text = some ms ∧ Lexeme.read f.text = some (ls ++ ms) := by
  refine ⟨read_text h, ?_⟩
  rintro g k rfl
  obtain ⟨hg, hk⟩ := wellNamed_append.mp h
  refine ⟨g.lexemes, k.lexemes, read_text hg, read_text hk, ?_⟩
  rw [read_text h, lexemes_append]

/-- Identifiers with a quote and a backslash at the end, and with the sign of a placeholder. -/
def awkward : Fragment :=
  [.ident "a\x60\x5c", .token .dot, .ident "@b", .token .ge, .number 10, .token .and, .ident "\x60",
    .token .notIn, .raw "UNNEST", .token .lparen, .param "param0" .null, .token .rparen]

theorem reads_back_awkward :
    awkward.WellNamed ∧ Lexeme.read awkward.text =
      some [.ident "a\x60\x5c", .mark .dot, .ident "@b", .mark .ge, .word "10", .word "AND",
        .ident "\x60", .word "NOT", .word "IN", .word "UNNEST", .mark .lparen, .param "param0",
        .mark .rparen] := by
  have h : awkward.WellNamed := by decide
  exact ⟨h, (reads_back h).1⟩

end Fragment

end RowGraph.Sql
