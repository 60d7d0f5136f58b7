import RowGraph.Proofs.Sql.Numbering

/-!
# Proofs — Sql — what a text mentions

`mentions` reads off a text the tables it brings in, with their aliases, and the columns it names,
each with its qualifier and the clause it stands in.  It knows nothing of how the text was made: it
goes by the words that begin a clause, by `AS` and by the dots.

`Fragment.Mentions` says what a fragment adds to that wherever it stands, and which clause it
leaves the reader in.
-/

namespace RowGraph.Sql

/-- The clauses that mention columns, and the one that brings in tables. -/
inductive Clause where
  | select
  | tables
  | on
  | filter
  | groupBy
  | orderBy
  deriving DecidableEq, Repr

/-- What a text mentions. -/
inductive Mention where
  /-- A table brought in under an alias. -/
  | table (path aliasName : String)
  /-- A column behind a qualifier. -/
  | column (k : Clause) (qualifier name : String)
  /-- A column without one. -/
  | bare (k : Clause) (name : String)
  deriving DecidableEq, Repr

/-- The clause behind a word. -/
def Clause.next (k : Clause) : String → Clause
  | "FROM" | "JOIN" => .tables
  | "ON" => .on
  | "WHERE" => .filter
  | "GROUP" => .groupBy
  | "ORDER" => .orderBy
  | _ => k

/-- Reads off the lexemes of a clause and of those that follow; a label behind `AS` is no
column. -/
def Mention.scan : Clause → List Lexeme → List Mention
  | k, .ident q :: .mark .dot :: .ident c :: rest => .column k q c :: scan k rest
  | .tables, .ident path :: .word "AS" :: .ident a :: rest => .table path a :: scan .tables rest
  | k, .ident c :: rest => .bare k c :: scan k rest
  | k, .word "AS" :: .ident _ :: rest => scan k rest
  | k, .word w :: rest => scan (k.next w) rest
  | k, _ :: rest => scan k rest
  | _, [] => []

/-- What a text mentions, in order. -/
def mentions (text : String) : Option (List Mention) :=
  (Lexeme.read text).map (Mention.scan .select)

example : mentions "\x60a\x60.\x60b\x60 AS \x60c\x60 FROM \x60t\x60 AS \x60a\x60 WHERE \x60d\x60" =
    some [.column .select "a" "b", .table "t" "a", .bare .filter "d"] := by
  decide +kernel

namespace Fragment

/-- Where the reader is in clause `k`, the fragment mentions `ms` and leaves it in clause `k'`. -/
def Mentions (f : Fragment) (k : Clause) (ms : List Mention) (k' : Clause) : Prop :=
  ∀ rest, Mention.scan k (f.lexemes ++ rest) = ms ++ Mention.scan k' rest

theorem Mentions.append {f g : Fragment} {k k₁ k₂ : Clause} {ms ns : List Mention}
    (hf : f.Mentions k ms k₁) (hg : g.Mentions k₁ ns k₂) : Mentions (f ++ g) k (ms ++ ns) k₂ := by
  intro rest
  rw [lexemes_append, List.append_assoc, hf, hg, List.append_assoc]

theorem Mentions.nil_append {f g : Fragment} {k k₁ k₂ : Clause} {ms : List Mention}
    (hf : f.Mentions k [] k₁) (hg : g.Mentions k₁ ms k₂) : Mentions (f ++ g) k ms k₂ :=
  hf.append hg

theorem Mentions.append_nil {f g : Fragment} {k k₁ k₂ : Clause} {ms : List Mention}
    (hf : f.Mentions k ms k₁) (hg : g.Mentions k₁ [] k₂) : Mentions (f ++ g) k ms k₂ :=
  List.append_nil ms ▸ hf.append hg

theorem mentions_nil (k : Clause) : Mentions [] k [] k := fun _ => rfl

theorem mentions_column (k : Clause) (q c : String) :
    (column (some q) c).Mentions k [.column k q c] k := by
  intro rest
  cases k <;> rfl

theorem mentions_table (path a : String) :
    Mentions (ident path ++ token .as ++ ident a) .tables [.table path a] .tables :=
  fun _ => rfl

theorem mentions_label (k : Clause) (a : String) : Mentions (token .as ++ ident a) k [] k := by
  intro rest
  cases k <;> rfl

theorem mentions_param (k : Clause) (n : Nat) (v : Value) : (param n v).Mentions k [] k := by
  intro rest
  cases k <;> rfl

end Fragment

/-- The clause behind a token. -/
def Token.next (k : Clause) : Token → Clause
  | .fromTable | .deleteFrom | .innerJoin | .leftOuterJoin => .tables
  | .on => .on
  | .filter => .filter
  | .groupBy => .groupBy
  | .orderBy => .orderBy
  | _ => k

/-- The words that are read for more than themselves. -/
def leading : List String := ["AS", "FROM", "JOIN", "ON", "WHERE", "GROUP", "ORDER"]

theorem Mention.scan_word {w : String} (h : w ∉ leading) (k : Clause) (rest : List Lexeme) :
    scan k (.word w :: rest) = scan k rest := by
  simp only [leading, List.mem_cons, List.not_mem_nil, or_false, not_or] at h
  obtain ⟨has, hfrom, hjoin, hon, hwhere, hgroup, horder⟩ := h
  have hk : k.next w = k := by simp [Clause.next, *]
  rw [scan, hk]
  exact fun _ _ _ hw => has hw

/-- No number is one of them, since they are not made of digits. -/
theorem toString_not_mem_leading (n : Nat) : toString n ∉ leading := by
  have hl : ∀ w ∈ leading, w.toList.all Char.isDigit = false := by decide
  have hn : (toString n).toList.all Char.isDigit := by
    rw [Nat.toString_eq_repr, Nat.toList_repr, List.all_eq_true]
    exact fun c hc => Nat.isDigit_of_mem_toDigits (by decide) (by decide) hc
  intro hm
  rw [hl _ hm] at hn
  cases hn

namespace Fragment

/-- A token mentions nothing; what stands behind `AS` does not stand by itself. -/
theorem mentions_token (k : Clause) {t : Token} (ht : t ≠ .as) :
    (token t).Mentions k [] (t.next k) := by
  intro rest
  cases t
  case as => exact absurd rfl ht
  all_goals cases k <;> rfl

theorem mentions_number (k : Clause) (n : Nat) : Mentions [.number n] k [] k :=
  Mention.scan_word (toString_not_mem_leading n) k

theorem Mentions.parens {f : Fragment} {k : Clause} {ms : List Mention} (hf : f.Mentions k ms k) :
    f.parens.Mentions k ms k := by
  have hl : (token .lparen).Mentions k [] k := mentions_token k (by decide)
  have hr : (token .rparen).Mentions k [] k := mentions_token k (by decide)
  exact (hl.nil_append hf).append_nil hr

theorem Mentions.call {name : String} {f : Fragment} {k : Clause} {ms : List Mention}
    (hn : name ∉ leading) (hf : f.Mentions k ms k) : (call name f).Mentions k ms k := by
  have hw : Mentions [.raw name] k [] k := Mention.scan_word hn k
  exact hw.nil_append hf.parens

/-- The text of a fragment mentions what the fragment does. -/
theorem Mentions.text {f : Fragment} {k : Clause} {ms : List Mention}
    (hf : f.Mentions .select ms k) (hw : f.WellNamed) : mentions f.text = some ms := by
  have h := hf []
  rw [List.append_nil, Mention.scan, List.append_nil] at h
  rw [mentions, read_text hw, Option.map_some, h]

/-! ### Fragments one after the other -/

/-- The fragments mention the `ms` together, in one clause. -/
inductive MentionAll (k : Clause) : List Fragment → List Mention → Prop where
  | nil : MentionAll k [] []
  | cons {f : Fragment} {fs : List Fragment} {ms ns : List Mention} (h : f.Mentions k ms k)
      (t : MentionAll k fs ns) : MentionAll k (f :: fs) (ms ++ ns)

theorem MentionAll.append {k : Clause} {fs gs : List Fragment} {ms ns : List Mention}
    (hf : MentionAll k fs ms) (hg : MentionAll k gs ns) : MentionAll k (fs ++ gs) (ms ++ ns) := by
  induction hf with
  | nil => exact hg
  | cons h _ ih => rw [List.append_assoc]; exact .cons h ih

/-- Fragments that mention one thing each. -/
theorem mentionAll_map {α : Type} {k : Clause} {f : α → Fragment} {m : α → Mention}
    (h : ∀ a, (f a).Mentions k [m a] k) (as : List α) : MentionAll k (as.map f) (as.map m) := by
  induction as with
  | nil => exact .nil
  | cons a as ih => exact .cons (h a) ih

theorem mentionAll_flatMap {α : Type} {k : Clause} {f : α → List Fragment}
    {ms : α → List Mention} (h : ∀ a, MentionAll k (f a) (ms a)) (as : List α) :
    MentionAll k (as.flatMap f) (as.flatMap ms) := by
  induction as with
  | nil => exact .nil
  | cons a as ih => exact (h a).append ih

theorem MentionAll.parens {k : Clause} {fs : List Fragment} {ms : List Mention}
    (h : MentionAll k fs ms) : MentionAll k (fs.map Fragment.parens) ms := by
  induction h with
  | nil => exact .nil
  | cons h _ ih => exact .cons h.parens ih

theorem MentionAll.join {k : Clause} {t : Token} (ht : (token t).Mentions k [] k)
    {fs : List Fragment} {ms : List Mention} (h : MentionAll k fs ms) :
    (Fragment.join t fs).Mentions k ms k := by
  induction h with
  | nil => exact mentions_nil k
  | @cons f fs ms ns hf hfs ih =>
      cases fs with
      | nil =>
          cases hfs
          rw [List.append_nil]
          exact hf
      | cons g fs => exact hf.append (ht.nil_append ih)

theorem MentionAll.joinGrouped {k : Clause} {t : Token} (ht : (token t).Mentions k [] k)
    {fs : List Fragment} {ms : List Mention} (h : MentionAll k fs ms) :
    (Fragment.joinGrouped t fs).Mentions k ms k := by
  unfold Fragment.joinGrouped
  split
  · exact h.join ht
  · exact h.parens.join ht

theorem mentionAll_paramsFrom (k : Clause) (n : Nat) (vs : List Value) :
    MentionAll k (paramsFrom n vs) [] := by
  induction vs generalizing n with
  | nil => exact .nil
  | cons v vs ih => exact .cons (mentions_param k n v) (ih (n + 1))

end Fragment

end RowGraph.Sql
