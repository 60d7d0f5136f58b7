import RowGraph.Filter.Predicate

/-!
# Proofs — Sql — sections of a fragment

A statement is one sequence of chunks.  `Fragment.sections` cuts it in front of each keyword that
begins a section and stands outside of parentheses; there are no sections if a parenthesis is
without its partner or if something stands in front of the first keyword.

The cut passes over some fragments wherever they stand (`Fragment.Uncut`).  Most of what is written
is put together from words, columns and placeholders, one behind the other or in parentheses, and
what holds of the pieces and is kept by these operations holds of it (`Fragment.Kept`).  So **no
predicate is cut**, however deep it is (`Kept.predicate` of `kept_uncut`).
-/

namespace RowGraph.Sql

/-! ### Cutting -/

/-- The keywords that begin a section. -/
def Token.begins : Token → Bool
  | .select | .fromTable | .innerJoin | .leftOuterJoin | .filter | .groupBy | .orderBy | .limit
  | .offset => Bool.true
  | _ => Bool.false

/-- How many parentheses are open behind a chunk, if `n` are in front of it. -/
def Chunk.nest (n : Nat) : Chunk → Option Nat
  | .token .lparen => some (n + 1)
  | .token .rparen => if n = 0 then none else some (n - 1)
  | _ => some n

/-- The keyword a chunk is, if it begins a section where `n` parentheses are open. -/
def Chunk.opening? (n : Nat) : Chunk → Option Token
  | .token t => if n = 0 ∧ t.begins then some t else none
  | _ => none

/-- A keyword and what stands behind it, up to the next. -/
abbrev Section := Token × Fragment

namespace Fragment

/-- How many parentheses are open behind a fragment. -/
def nest : Nat → Fragment → Option Nat
  | n, [] => some n
  | n, c :: f => (c.nest n).bind fun m => nest m f

/-- Every parenthesis has its partner. -/
def Balanced (f : Fragment) : Prop := f.nest 0 = some 0

/-- What stands in front of the first section, and the sections. -/
def cut : Nat → Fragment → Option (Fragment × List Section)
  | n, [] => if n = 0 then some ([], []) else none
  | n, c :: f => (c.nest n).bind fun m => (cut m f).map fun p =>
      match c.opening? n with
      | some t => ([], (t, p.1) :: p.2)
      | none => (c :: p.1, p.2)

/-- The sections of a fragment that begins with one. -/
def sections (f : Fragment) : Option (List Section) :=
  match f.cut 0 with
  | some ([], ss) => some ss
  | _ => none

example : sections [.token .select, .raw "f", .token .lparen, .token .limit, .token .rparen,
    .token .limit, .number 1] =
    some [(.select, [.raw "f", .token .lparen, .token .limit, .token .rparen]),
      (.limit, [.number 1])] := rfl

/-! ### Balance -/

theorem nest_of_opening? {n : Nat} {c : Chunk} {t : Token} (h : c.opening? n = some t) :
    n = 0 ∧ c.nest n = some 0 := by
  cases c with
  | token u =>
      rw [Chunk.opening?] at h
      split at h
      case isTrue hu =>
          obtain ⟨rfl, hb⟩ := hu
          cases u <;> first | exact ⟨rfl, rfl⟩ | cases hb
      case isFalse => cases h
  | _ => cases h

/-- Whatever is cut is balanced piece by piece. -/
theorem nest_of_cut {f : Fragment} {n : Nat} {p : Fragment × List Section}
    (h : f.cut n = some p) :
    f.nest n = some 0 ∧ p.1.nest n = some 0 ∧ ∀ s ∈ p.2, s.2.Balanced := by
  induction f generalizing n p with
  | nil =>
      rw [cut] at h
      split at h
      case isTrue hn =>
          cases h
          exact ⟨congrArg some hn, congrArg some hn, fun _ hs => absurd hs List.not_mem_nil⟩
      case isFalse => cases h
  | cons c f ih =>
      obtain ⟨m, hm, h⟩ := Option.bind_eq_some_iff.mp h
      obtain ⟨q, hq, rfl⟩ := Option.map_eq_some_iff.mp h
      obtain ⟨hf, hq₁, hq₂⟩ := ih hq
      refine ⟨by rw [nest, hm]; exact hf, ?_⟩
      cases ho : c.opening? n with
      | some t =>
          obtain ⟨rfl, hc⟩ := nest_of_opening? ho
          rw [hc] at hm
          cases hm
          exact ⟨rfl, List.forall_mem_cons.mpr ⟨hq₁, hq₂⟩⟩
      | none => exact ⟨by rw [nest, hm]; exact hq₁, hq₂⟩

/-- A fragment that has sections is balanced, and so is each of them. -/
theorem balanced_of_sections {f : Fragment} {ss : List Section} (h : f.sections = some ss) :
    f.Balanced ∧ ∀ s ∈ ss, s.2.Balanced := by
  unfold sections at h
  split at h
  case h_1 ss' hc =>
      cases h
      obtain ⟨hf, -, hs⟩ := nest_of_cut hc
      exact ⟨hf, hs⟩
  case h_2 => cases h

/-! ### What is not cut -/

/-- Wherever the fragment stands it is one piece with what follows. -/
def Uncut (f : Fragment) : Prop :=
  ∀ n rest, cut n (f ++ rest) = (cut n rest).map fun p => (f ++ p.1, p.2)

theorem uncut_nil : Uncut [] := fun n rest => by simp

theorem Uncut.append {f g : Fragment} (hf : f.Uncut) (hg : g.Uncut) : Uncut (f ++ g) := by
  intro n rest
  rw [List.append_assoc, hf, hg, Option.map_map]
  simp [Function.comp_def]

theorem uncut_chunk {c : Chunk} (hn : ∀ n, c.nest n = some n) (ho : ∀ n, c.opening? n = none) :
    Uncut [c] := by
  intro n rest
  rw [List.singleton_append, cut, hn, Option.bind_some, ho]
  rfl

theorem uncut_token {t : Token} (hb : t.begins = false) (hl : t ≠ .lparen) (hr : t ≠ .rparen) :
    Uncut (token t) := by
  refine uncut_chunk (fun n => ?_) fun n => ?_
  · unfold Chunk.nest
    split
    case h_1 h => cases h; exact absurd rfl hl
    case h_2 h => cases h; exact absurd rfl hr
    case h_3 => rfl
  · rw [Chunk.opening?, hb]
    simp

/-- In parentheses a fragment is one piece as well. -/
theorem Uncut.parens {f : Fragment} (hf : f.Uncut) : f.parens.Uncut := by
  intro n rest
  have ho : ∀ (c : Chunk), c = .token .lparen ∨ c = .token .rparen → ∀ n, c.opening? n = none := by
    rintro c (rfl | rfl) n <;> simp [Chunk.opening?, Token.begins]
  have hr : (Chunk.token .rparen).nest (n + 1) = some n := rfl
  rw [Fragment.parens, List.append_assoc, List.cons_append, cut, Chunk.nest, Option.bind_some,
    hf, List.singleton_append, cut, hr, Option.bind_some, ho _ (.inl rfl), ho _ (.inr rfl),
    Option.map_map, Option.map_map]
  simp [Function.comp_def]

/-! ### Put together from pieces -/

/-- A property of fragments that the pieces have and putting them together keeps. -/
structure Kept (P : Fragment → Prop) : Prop where
  nil : P []
  append {f g : Fragment} (hf : P f) (hg : P g) : P (f ++ g)
  parens {f : Fragment} (hf : P f) : P f.parens
  /-- The words that begin no section, the signs and the comma. -/
  token {t : Token} (hb : t.begins = false) (hp : t.isPunctuation = false ∨ t = .comma) :
    P (token t)
  /-- The one function predicates call. -/
  unnest : P [.raw "UNNEST"]
  ident (name : String) : P (ident name)
  column (q : Option String) (name : String) : P (column q name)
  param (n : Nat) (v : Value) : P (param n v)

theorem kept_uncut : Kept Uncut where
  nil := uncut_nil
  append := Uncut.append
  parens := Uncut.parens
  token hb hp := by
    refine uncut_token hb ?_ ?_
    · rintro rfl
      rcases hp with hp | hp <;> cases hp
    · rintro rfl
      rcases hp with hp | hp <;> cases hp
  unnest := uncut_chunk (fun _ => rfl) fun _ => rfl
  ident _ := uncut_chunk (fun _ => rfl) fun _ => rfl
  column q name := by
    have hi (name : String) : Uncut (ident name) := uncut_chunk (fun _ => rfl) fun _ => rfl
    have hd : Uncut (token .dot) := uncut_token rfl (by decide) (by decide)
    cases q with
    | none => exact hi name
    | some q => exact (hi q).append (hd.append (hi name))
  param _ _ := uncut_chunk (fun _ => rfl) fun _ => rfl

namespace Kept

variable {P : Fragment → Prop} (hP : Kept P)
include hP

theorem call {f : Fragment} (hf : P f) : P (call "UNNEST" f) :=
  hP.append hP.unnest (hP.parens hf)

theorem join {t : Token} (ht : P (Fragment.token t)) :
    ∀ {fs : List Fragment}, (∀ f ∈ fs, P f) → P (Fragment.join t fs)
  | [], _ => hP.nil
  | [f], h => h f List.mem_cons_self
  | f :: g :: fs, h => by
      have hr : P (Fragment.join t (g :: fs)) := join ht fun e he => h e (List.mem_cons_of_mem f he)
      exact hP.append (h f List.mem_cons_self) (hP.append ht hr)

theorem commas {fs : List Fragment} (h : ∀ f ∈ fs, P f) : P (commas fs) :=
  hP.join (hP.token rfl (.inr rfl)) h

theorem joinGrouped {t : Token} (ht : P (Fragment.token t)) {fs : List Fragment}
    (h : ∀ f ∈ fs, P f) : P (Fragment.joinGrouped t fs) := by
  have hp : ∀ f ∈ fs.map Fragment.parens, P f := by
    intro g hg
    obtain ⟨f, hf, rfl⟩ := List.mem_map.mp hg
    exact hP.parens (h f hf)
  unfold Fragment.joinGrouped
  split
  · exact h _ List.mem_cons_self
  · exact hP.join ht hp

theorem paramsFrom (n : Nat) (vs : List Value) : ∀ f ∈ paramsFrom n vs, P f := by
  induction vs generalizing n with
  | nil => exact fun _ hf => absurd hf List.not_mem_nil
  | cons v vs ih => exact List.forall_mem_cons.mpr ⟨hP.param n v, ih (n + 1)⟩

/-! ### Predicates -/

mutual

/-- A property that is kept holds of the fragments of predicates. -/
theorem predicate (q : Option String) : ∀ (p : Predicate) (n : Nat), P (p.fragment q n)
  | .constant b, n => by cases b <;> exact hP.token rfl (.inl rfl)
  | .is column negated k, n => by
      have ht : P (Fragment.token (if negated then .isNot else .is)) := by
        cases negated <;> exact hP.token rfl (.inl rfl)
      have hk : P (Fragment.token k.token) := by cases k <;> exact hP.token rfl (.inl rfl)
      exact hP.append (hP.append (hP.column q column) ht) hk
  | .compare column c v, n => by
      have ht : P (Fragment.token c.token) := by cases c <;> exact hP.token rfl (.inl rfl)
      exact hP.append (hP.append (hP.column q column) ht) (hP.param n v)
  | .among column negated vs, n => by
      have ht : P (Fragment.token (if negated then .notIn else .isIn)) := by
        cases negated <;> exact hP.token rfl (.inl rfl)
      exact hP.append (hP.append (hP.column q column) ht)
        (hP.parens (hP.commas (hP.paramsFrom n vs)))
  | .between column negated low high, n => by
      have ht : P (Fragment.token (if negated then .notBetween else .between)) := by
        cases negated <;> exact hP.token rfl (.inl rfl)
      have hl := hP.append (hP.append (hP.column q column) ht) (hP.param n low)
      exact hP.append (hP.append hl (hP.token rfl (.inl rfl))) (hP.param (n + 1) high)
  | .contains column v, n =>
      hP.append (hP.append (hP.param n v) (hP.token rfl (.inl rfl)))
        (hP.call (hP.column q column))
  | .contained column vs, n =>
      hP.append (hP.append (hP.column q column) (hP.token rfl (.inl rfl)))
        (hP.call (hP.param n (.array vs)))
  | .junction c ps, n => by
      have ht : P (Fragment.token c.token) := by cases c <;> exact hP.token rfl (.inl rfl)
      exact hP.join ht (groups q ps n)

theorem groups (q : Option String) : ∀ (ps : List Predicate) (n : Nat),
    ∀ f ∈ Predicate.groups q ps n, P f
  | [], _ => fun _ hf => absurd hf List.not_mem_nil
  | p :: ps, n =>
      List.forall_mem_cons.mpr ⟨hP.parens (predicate q p n), groups q ps (n + p.size)⟩

end

end Kept

/-! ### Sections one after the other -/

/-- The fragment is made of the sections, whatever sections follow. -/
def HasSections (f : Fragment) (ss : List Section) : Prop :=
  ∀ rest ss', cut 0 rest = some ([], ss') → cut 0 (f ++ rest) = some ([], ss ++ ss')

theorem hasSections_nil : HasSections [] [] := fun _ _ h => h

theorem HasSections.append {f g : Fragment} {ss ss' : List Section} (hf : f.HasSections ss)
    (hg : g.HasSections ss') : HasSections (f ++ g) (ss ++ ss') := by
  intro rest ss'' h
  rw [List.append_assoc, List.append_assoc]
  exact hf _ _ (hg _ _ h)

/-- A keyword and a fragment that is not cut are a section. -/
theorem Uncut.hasSections {t : Token} (ht : t.begins) {f : Fragment} (hf : f.Uncut) :
    HasSections (token t ++ f) [(t, f)] := by
  intro rest ss h
  have ho : (Chunk.token t).opening? 0 = some t := by simp [Chunk.opening?, ht]
  obtain ⟨-, hn⟩ := nest_of_opening? ho
  rw [List.append_assoc, token, List.singleton_append, cut, hn, Option.bind_some, hf, h, ho]
  simp

theorem hasSections_flatMap {α : Type} {f : α → Fragment} {ss : α → List Section} {as : List α}
    (h : ∀ a ∈ as, (f a).HasSections (ss a)) : HasSections (as.flatMap f) (as.flatMap ss) := by
  induction as with
  | nil => exact hasSections_nil
  | cons a as ih =>
      rw [List.flatMap_cons, List.flatMap_cons]
      exact (h a List.mem_cons_self).append (ih fun b hb => h b (List.mem_cons_of_mem a hb))

theorem HasSections.sections {f : Fragment} {ss : List Section} (h : f.HasSections ss) :
    f.sections = some ss := by
  have hc := h [] [] rfl
  rw [List.append_nil, List.append_nil] at hc
  rw [Fragment.sections, hc]

end Fragment

end RowGraph.Sql
