import Mathlib.Data.List.Induction
import Mathlib.Data.Nat.Digits.Defs
import RowGraph.Proofs.Session
import RowGraph.Proofs.Sql.Numbering

/-!
# Proofs — Session — the answer to a count

Engines answer a count with an integer or with a decimal numeral.  `Count.Says` has it which cells
say which number, `Count.Fails` what is wrong with rows that say none; neither knows how a count is
read.

* `Count.digits?_eq_some_iff`, `Count.numeral?_eq_some_iff`: of texts, the numerals of numbers below
  `2 ^ 64` are read, as what they stand for, and no others.
* `Count.ofRows_eq_ok_iff`: from rows, the number that the first of them says.

**A count is what its answer says** (`Session.counts_iff`), and an answer that says none is an
error, never another number.
-/

namespace RowGraph

namespace Count

/-! ### Numerals -/

/-- Decimal digits, one or more, that stand for `n`: the last for ones, the one in front of it for
tens, and so on.  Zeros may lead. -/
structure Digits (n : Nat) (ds : List Char) : Prop where
  ne_nil : ds ≠ []
  decimal : ∀ c ∈ ds, c.isDigit
  value : Nat.ofDigits 10 (ds.reverse.map fun c => c.toNat - '0'.toNat) = n

/-- A numeral of `n`: its digits, or one plus sign and its digits. -/
def Numeral (n : Nat) (cs : List Char) : Prop :=
  Digits n cs ∨ ∃ ds, cs = '+' :: ds ∧ Digits n ds

theorem decimalValue_eq_ofDigitChars (ds : List Char) :
    decimalValue ds = Nat.ofDigitChars 10 ds 0 := by
  have step : (fun n c => n * 10 + (c.toNat - 0x30)) =
      fun (n : Nat) (c : Char) => 10 * n + (c.toNat - '0'.toNat) := by
    funext n c
    rw [Nat.mul_comm]
    rfl
  rw [decimalValue, step]
  rfl

/-- Going through digits from the first, ten times what there is and the next, gives the value of
their places. -/
theorem decimalValue_eq_ofDigits (ds : List Char) :
    decimalValue ds = Nat.ofDigits 10 (ds.reverse.map fun c => c.toNat - '0'.toNat) := by
  induction ds using List.reverseRecOn with
  | nil => rfl
  | append_singleton ds c ih =>
      have step : decimalValue (ds ++ [c]) = decimalValue ds * 10 + (c.toNat - '0'.toNat) :=
        List.foldl_append
      rw [step, ih, List.reverse_append, List.reverse_singleton, List.singleton_append,
        List.map_cons, Nat.ofDigits_cons, Nat.mul_comm, Nat.add_comm]

theorem digits?_eq_some_iff {ds : List Char} {n : Nat} :
    digits? ds = some n ↔ Digits n ds ∧ n < UInt64.size := by
  have hread : digits? ds = some n ↔
      (ds ≠ [] ∧ (∀ c ∈ ds, c.isDigit) ∧ decimalValue ds < UInt64.size) ∧ decimalValue ds = n := by
    simp [digits?, and_assoc]
  rw [hread, decimalValue_eq_ofDigits]
  constructor
  · rintro ⟨⟨hne, hd, hlt⟩, hv⟩
    exact ⟨⟨hne, hd, hv⟩, hv ▸ hlt⟩
  · rintro ⟨⟨hne, hd, hv⟩, hlt⟩
    exact ⟨⟨hne, hd, hv.symm ▸ hlt⟩, hv⟩

theorem numeral?_eq_some_iff {cs : List Char} {n : Nat} :
    numeral? cs = some n ↔ Numeral n cs ∧ n < UInt64.size := by
  unfold numeral?
  split
  case h_1 ds =>
      -- a plus sign is no digit, so what it stands in front of are the digits
      have hplus : ¬ Digits n ('+' :: ds) :=
        fun h => absurd (h.decimal '+' List.mem_cons_self) (by decide)
      simp [digits?_eq_some_iff, Numeral, hplus]
  case h_2 hcs =>
      have hplus : ¬ ∃ ds, cs = '+' :: ds ∧ Digits n ds := fun ⟨ds, h, _⟩ => hcs ds h
      rw [digits?_eq_some_iff, Numeral, or_iff_left hplus]

theorem digits_toString (n : Nat) : Digits n (toString n).toList where
  ne_nil := by
    rw [Nat.toString_eq_repr, Nat.toList_repr]
    exact Nat.toDigits_ne_nil
  decimal := by
    rw [Nat.toString_eq_repr, Nat.toList_repr]
    exact fun c hc => Nat.isDigit_of_mem_toDigits (by decide) (by decide) hc
  value := by
    rw [← decimalValue_eq_ofDigits, decimalValue_eq_ofDigitChars, Sql.ofDigitChars_toString]

/-! ### Rows -/

/-- The first row has a cell named `count`, and this is its value. -/
def Shows (rows : List Row) (v : Value) : Prop :=
  ∃ first rest, rows = first :: rest ∧ first.get? "count" = some v

/-- The values that say a number: that integer, or a numeral of it if it is below `2 ^ 64`. -/
inductive Says (n : Nat) : Value → Prop where
  | int64 {i : Int64} (h : i.toInt = n) : Says n (.int64 i)
  | string {s : String} (h : Numeral n s.toList) (hn : n < UInt64.size) : Says n (.string s)

/-- What is wrong with rows that say no number. -/
inductive Fails (rows : List Row) : CountFault → Prop where
  | missing (h : ∀ v, ¬ Shows rows v) : Fails rows .missing
  | notNumeral {s : String} (h : Shows rows (.string s)) : Fails rows (.notNumeral s)
  | notInteger {v : Value} (h : Shows rows v) (hv : ∀ s, v ≠ .string s) : Fails rows (.notInteger v)

theorem shows_iff {rows : List Row} {v : Value} :
    Shows rows v ↔ rows.head?.bind (·.get? "count") = some v := by
  cases rows <;> simp [Shows]

theorem says_int64_iff {n : Nat} {i : Int64} : Says n (.int64 i) ↔ i.toInt = n :=
  ⟨fun h => by cases h; assumption, .int64⟩

theorem says_string_iff {n : Nat} {s : String} :
    Says n (.string s) ↔ Numeral n s.toList ∧ n < UInt64.size :=
  ⟨fun h => by cases h; exact ⟨‹_›, ‹_›⟩, fun h => .string h.1 h.2⟩

/-- The number that is read is the one the first row says. -/
theorem ofRows_eq_ok_iff {rows : List Row} {n : Nat} :
    ofRows rows = .ok n ↔ ∃ v, Shows rows v ∧ Says n v := by
  simp only [shows_iff]
  unfold ofRows
  generalize rows.head?.bind (·.get? "count") = cell
  match cell with
  | none => simp
  | some (.int64 i) =>
      simp only [Option.some.injEq, exists_eq_left', says_int64_iff]
      split
      · simp only [Except.ok.injEq]
        omega
      · simp only [reduceCtorEq, false_iff]
        omega
  | some (.string s) =>
      simp only [Option.some.injEq, exists_eq_left', says_string_iff, ← numeral?_eq_some_iff]
      cases numeral? s.toList <;> simp
  | some .null | some (.bool _) | some (.float64 _) | some (.bytes _) | some (.array _) =>
      simp only [Option.some.injEq, exists_eq_left', reduceCtorEq, false_iff]
      nofun

theorem fails_of_ofRows {rows : List Row} {f : CountFault} (h : ofRows rows = .error f) :
    Fails rows f := by
  unfold ofRows at h
  cases hc : rows.head?.bind (·.get? "count") with
  | none =>
      rw [hc] at h
      cases h
      exact .missing fun v hv => by simp [shows_iff.mp hv] at hc
  | some v =>
      rw [hc] at h
      have hs := shows_iff.mpr hc
      match v with
      | .string s =>
          dsimp only at h
          split at h
          · cases h
          · cases h
            exact .notNumeral hs
      | .int64 i =>
          dsimp only at h
          split at h
          · cases h
          · cases h
            exact .notInteger hs nofun
      | .null | .bool _ | .float64 _ | .bytes _ | .array _ =>
          cases h
          exact .notInteger hs nofun

end Count

namespace Session

variable {s : Session} {entity : String} {o : FindOptions}

theorem result_count {st : Sql.Statement} (h : s.statement (.count entity o) = .ok st) {e : Engine}
    {rows : List Row} (ha : e.answer 0 = .ok rows) :
    (s.perform (.count entity o) e).1.result = countReply rows := by
  have hq : s.request (.count entity o) = .ok ⟨.count, st, countReply⟩ := by
    rw [request]
    rw [statement] at h
    cases hc : s.registry.count entity o with
    | error err =>
        rw [hc] at h
        cases h
    | ok plan =>
        rw [hc] at h
        cases h
        rfl
  rw [perform_eq, respond, hq, ha]
  rfl

/-- **A count is what its answer says.**  If a count compiles and its statement is answered with
rows, it comes back with a number exactly if the first row says that number; if it says none, the
count fails and tells what it found.  The decimal text of a number below `2 ^ 64` says it. -/
theorem counts_iff {st : Sql.Statement} (h : s.statement (.count entity o) = .ok st) {e : Engine}
    {rows : List Row} (ha : e.answer 0 = .ok rows) :
    (∀ n, (s.perform (.count entity o) e).1.result = .ok (.count n) ↔
        ∃ v, Count.Shows rows v ∧ Count.Says n v) ∧
      ((¬ ∃ n v, Count.Shows rows v ∧ Count.Says n v) →
        ∃ f, (s.perform (.count entity o) e).1.result = .error (.count f) ∧ Count.Fails rows f) ∧
      ∀ n < UInt64.size, Count.Shows rows (.string (toString n)) →
        (s.perform (.count entity o) e).1.result = .ok (.count n) := by
  have hok : ∀ n, (s.perform (.count entity o) e).1.result = .ok (.count n) ↔
      ∃ v, Count.Shows rows v ∧ Count.Says n v := by
    intro n
    rw [result_count h ha, countReply, ← Count.ofRows_eq_ok_iff]
    cases Count.ofRows rows <;> simp
  refine ⟨hok, ?_, ?_⟩
  · intro hn
    cases hr : Count.ofRows rows with
    | ok n => exact absurd ⟨n, Count.ofRows_eq_ok_iff.mp hr⟩ hn
    | error f => exact ⟨f, by rw [result_count h ha, countReply, hr], Count.fails_of_ofRows hr⟩
  · intro n hn hs
    exact (hok n).mpr ⟨_, hs, .string (.inl (Count.digits_toString n)) hn⟩

/-- Leading zeros and a plus sign are read over, and `2 ^ 64` is not taken for zero. -/
theorem counts_iff_library :
    (atLibrary.perform (.count "book" .all) (.ofAnswers
        [.ok [.ofList [("count", .string "+007")]]])).1.result = .ok (.count 7) ∧
      ∃ f, (atLibrary.perform (.count "book" .all) (.ofAnswers
        [.ok [.ofList [("count", .string "18446744073709551616")]]])).1.result =
          .error (.count f) := by
  have h := @counts_iff atLibrary "book" .all _ rfl
  constructor
  · obtain ⟨hok, -, -⟩ := @h (.ofAnswers [.ok [.ofList [("count", .string "+007")]]]) _ rfl
    have hdigits : Count.Digits 7 ['0', '0', '7'] :=
      ⟨List.cons_ne_nil _ _, List.all_eq_true.mp rfl, rfl⟩
    exact (hok 7).mpr
      ⟨.string "+007", ⟨_, [], rfl, rfl⟩, .string (.inr ⟨_, rfl, hdigits⟩) (by decide)⟩
  · obtain ⟨-, herror, -⟩ :=
      @h (.ofAnswers [.ok [.ofList [("count", .string "18446744073709551616")]]]) _ rfl
    have hnone : ¬ ∃ n v, Count.Shows [.ofList [("count", .string "18446744073709551616")]] v ∧
        Count.Says n v := by
      rintro ⟨n, v, hshows, hsays⟩
      obtain rfl : v = .string "18446744073709551616" :=
        (Option.some.inj (Count.shows_iff.mp hshows)).symm
      have hr := Count.numeral?_eq_some_iff.mpr (Count.says_string_iff.mp hsays)
      have hread : Count.numeral? "18446744073709551616".toList = none := by decide
      rw [hread] at hr
      cases hr
    obtain ⟨f, hf, -⟩ := herror hnone
    exact ⟨f, hf⟩

end Session

end RowGraph
