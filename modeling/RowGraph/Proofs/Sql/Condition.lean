import RowGraph.Filter.Predicate
import RowGraph.Proofs.Sql.Lexeme

/-!
# Proofs — Sql — conditions and their truth

The conditions of SQL as far as filters use them, read from text and evaluated.  `Condition.read`
goes by the usual precedence: `OR` binds loosest, then `AND`, then the predicates; the `AND`
behind `BETWEEN` belongs to it; parentheses group.  `Condition.truth?` evaluates in three-valued
logic, columns and placeholders as a `Scope` has them; it has no value where a placeholder is not
bound.

A comparison with null is unknown and every other one is as an `Interpretation` says, whatever
that is.  `IN` is equality with one of the values, `BETWEEN` is `>=` and `<=`.
-/

namespace RowGraph.Sql

/-! ### Truth -/

/-- The truth values of SQL. -/
inductive Truth where
  | true
  | false
  | unknown
  deriving DecidableEq, Repr

namespace Truth

def ofBool (b : Bool) : Truth := if b then .true else .false

def not : Truth → Truth
  | .true => .false
  | .false => .true
  | .unknown => .unknown

def and : Truth → Truth → Truth
  | .false, _ | _, .false => .false
  | .true, .true => .true
  | _, _ => .unknown

def or : Truth → Truth → Truth
  | .true, _ | _, .true => .true
  | .false, .false => .false
  | _, _ => .unknown

/-- All of them; of none it holds. -/
def all (ts : List Truth) : Truth := ts.foldr and .true

/-- One of them; of none it does not hold. -/
def any (ts : List Truth) : Truth := ts.foldr or .false

def negateIf (negated : Bool) (t : Truth) : Truth := if negated then t.not else t

theorem and_true (t : Truth) : t.and .true = t := by
  cases t <;> rfl

theorem or_false (t : Truth) : t.or .false = t := by
  cases t <;> rfl

end Truth

/-- How two values compare. -/
abbrev Interpretation := Comparison → Value → Value → Truth

namespace Interpretation

variable (I : Interpretation)

/-- A comparison with null is unknown. -/
def compare (c : Comparison) (x y : Value) : Truth :=
  if x.isNull || y.isNull then .unknown else I c x y

def among (x : Value) (vs : List Value) : Truth := .any (vs.map (I.compare .eq x))

def between (x low high : Value) : Truth := (I.compare .ge x low).and (I.compare .le x high)

end Interpretation

/-- What `IS` asks: it is never unknown. -/
def isKeyword : Keyword → Value → Bool
  | .null, v => v.isNull
  | .true, .bool b => b
  | .false, .bool b => !b
  | _, _ => false

/-- The items of an array; nothing else has any. -/
def itemsOf : Value → List Value
  | .array items => items
  | _ => []

/-! ### Conditions -/

/-- A column or a placeholder. -/
inductive Term where
  | column (qualifier : Option String) (name : String)
  | param (name : String)
  deriving DecidableEq, Repr

inductive Condition where
  | constant (b : Bool)
  | is (t : Term) (negated : Bool) (k : Keyword)
  | compare (c : Comparison) (l r : Term)
  | among (t : Term) (negated : Bool) (items : List Term)
  | between (t : Term) (negated : Bool) (low high : Term)
  /-- Membership in an array. -/
  | unnest (t array : Term)
  | both (l r : Condition)
  | either (l r : Condition)
  deriving Repr

/-- What columns and placeholders stand for. -/
structure Scope where
  column : Option String → String → Value
  params : Params

def Term.value? (s : Scope) : Term → Option Value
  | .column q name => some (s.column q name)
  | .param name => s.params.get? name

/-- The truth of a condition, unless a placeholder is not bound. -/
def Condition.truth? (I : Interpretation) (s : Scope) : Condition → Option Truth
  | .constant b => some (.ofBool b)
  | .is t negated k => do
      let x ← t.value? s
      return (Truth.ofBool (isKeyword k x)).negateIf negated
  | .compare c l r => do
      let x ← l.value? s
      let y ← r.value? s
      return I.compare c x y
  | .among t negated items => do
      let x ← t.value? s
      let vs ← items.mapM (Term.value? s)
      return (I.among x vs).negateIf negated
  | .between t negated low high => do
      let x ← t.value? s
      let l ← low.value? s
      let h ← high.value? s
      return (I.between x l h).negateIf negated
  | .unnest t array => do
      let x ← t.value? s
      let a ← array.value? s
      return I.among x (itemsOf a)
  | .both l r => do
      let a ← l.truth? I s
      let b ← r.truth? I s
      return a.and b
  | .either l r => do
      let a ← l.truth? I s
      let b ← r.truth? I s
      return a.or b

/-! ### Reading -/

namespace Condition

def term : List Lexeme → Option (Term × List Lexeme)
  | .ident q :: .mark .dot :: .ident name :: rest => some (.column (some q) name, rest)
  | .ident name :: rest => some (.column none name, rest)
  | .param name :: rest => some (.param name, rest)
  | _ => none

/-- A list of placeholders and the parenthesis that ends it. -/
def items : List Lexeme → Option (List Term × List Lexeme)
  | .param name :: .mark .rparen :: rest => some ([.param name], rest)
  | .param name :: .mark .comma :: rest =>
      (items rest).map fun r => (.param name :: r.1, r.2)
  | _ => none

def sign? : Token → Option Comparison
  | .eq => some .eq
  | .ne => some .ne
  | .gt => some .gt
  | .ge => some .ge
  | .lt => some .lt
  | .le => some .le
  | _ => none

def keyword? (word : String) : Option Keyword :=
  if word = "NULL" then some .null
  else if word = "TRUE" then some .true
  else if word = "FALSE" then some .false
  else none

/-- Takes a `NOT` away, if there is one. -/
def negation : List Lexeme → Bool × List Lexeme
  | .word "NOT" :: rest => (true, rest)
  | ls => (false, ls)

/-- What follows `IS` or `IS NOT`. -/
def isOperand (t : Term) (negated : Bool) : List Lexeme → Option (Condition × List Lexeme)
  | .word word :: rest => (keyword? word).map fun k => (.is t negated k, rest)
  | _ => none

/-- The operators that may have a `NOT` in front. -/
def wordOperation (t : Term) (negated : Bool) : List Lexeme → Option (Condition × List Lexeme)
  | .word "LIKE" :: rest =>
      (term rest).map fun r => (.compare (if negated then .notLike else .like) t r.1, r.2)
  | .word "IN" :: .mark .lparen :: rest => (items rest).map fun r => (.among t negated r.1, r.2)
  | .word "BETWEEN" :: rest =>
      match term rest with
      | some (low, .word "AND" :: rest) =>
          (term rest).map fun r => (.between t negated low r.1, r.2)
      | _ => none
  | _ => none

/-- What follows a term. -/
def operation (t : Term) : List Lexeme → Option (Condition × List Lexeme)
  | .mark sign :: rest =>
      (sign? sign).bind fun c => (term rest).map fun r => (.compare c t r.1, r.2)
  | .word "IS" :: rest => isOperand t (negation rest).1 (negation rest).2
  | .word "IN" :: .word "UNNEST" :: .mark .lparen :: rest =>
      match term rest with
      | some (array, .mark .rparen :: rest) => some (.unnest t array, rest)
      | _ => none
  | ls => wordOperation t (negation ls).1 (negation ls).2

/-- A predicate. -/
def predicate : List Lexeme → Option (Condition × List Lexeme)
  | .word "TRUE" :: rest => some (.constant true, rest)
  | .word "FALSE" :: rest => some (.constant false, rest)
  | ls => (term ls).bind fun r => operation r.1 r.2

mutual

/-- Conditions with `OR` between them. -/
def disjunction : Nat → List Lexeme → Option (Condition × List Lexeme)
  | 0, _ => none
  | n + 1, ls =>
      match conjunction n ls with
      | some (c, .word "OR" :: rest) => (disjunction n rest).map fun r => (.either c r.1, r.2)
      | r => r

/-- Conditions with `AND` between them. -/
def conjunction : Nat → List Lexeme → Option (Condition × List Lexeme)
  | 0, _ => none
  | n + 1, ls =>
      match factor n ls with
      | some (c, .word "AND" :: rest) => (conjunction n rest).map fun r => (.both c r.1, r.2)
      | r => r

/-- A predicate, or a condition in parentheses. -/
def factor : Nat → List Lexeme → Option (Condition × List Lexeme)
  | 0, _ => none
  | n + 1, .mark .lparen :: rest =>
      match disjunction n rest with
      | some (c, .mark .rparen :: rest) => some (c, rest)
      | _ => none
  | _ + 1, ls => predicate ls

end

/-- The condition a text consists of.  A condition is nested no deeper than it is long. -/
def read (text : String) : Option Condition := do
  let ls ← Lexeme.read text
  match disjunction (3 * ls.length) ls with
  | some (c, []) => some c
  | _ => none

end Condition

/-! ### Reading fragments -/

namespace Fragment

theorem lexemes_parens (f : Fragment) (rest : List Lexeme) :
    f.parens.lexemes ++ rest = .mark .lparen :: (f.lexemes ++ .mark .rparen :: rest) := by
  have h : f.parens.lexemes = (.mark .lparen :: f.lexemes) ++ [.mark .rparen] :=
    Fragment.lexemes_append (.token .lparen :: f) [.token .rparen]
  rw [h]
  simp

/-- The parts behind the first of a junction. -/
theorem lexemes_join (t : Token) (f g : Fragment) (fs : List Fragment) (rest : List Lexeme) :
    (Fragment.join t (f :: g :: fs)).lexemes ++ rest =
      f.lexemes ++ (t.lexemes ++ ((Fragment.join t (g :: fs)).lexemes ++ rest)) := by
  have h : (Fragment.join t (f :: g :: fs)).lexemes =
      f.lexemes ++ (t.lexemes ++ (Fragment.join t (g :: fs)).lexemes) :=
    Fragment.lexemes_append f (.token t :: Fragment.join t (g :: fs))
  rw [h]
  simp

end Fragment

namespace Condition

/-- Nothing follows, or a closing parenthesis does. -/
def Closed (rest : List Lexeme) : Prop := ∀ l ∈ rest.head?, l = .mark .rparen

theorem closed_nil : Closed [] := fun _ h => by cases h

theorem closed_rparen (rest : List Lexeme) : Closed (.mark .rparen :: rest) :=
  fun _ h => (Option.some.inj h).symm

theorem Closed.ne_word {rest : List Lexeme} (hr : Closed rest) (w : String) :
    ∀ l ∈ rest.head?, l ≠ .word w := by
  intro l hl
  rw [hr l hl]
  simp

theorem conjunction_of_factor {k : Nat} {ls rest : List Lexeme} {d : Condition}
    (h : factor k ls = some (d, rest)) (hr : ∀ l ∈ rest.head?, l ≠ .word "AND") :
    conjunction (k + 1) ls = some (d, rest) := by
  rw [conjunction, h]
  split
  case h_1 c rest' heq =>
      cases heq
      exact absurd rfl (hr _ rfl)
  case h_2 => rfl

theorem disjunction_of_conjunction {k : Nat} {ls rest : List Lexeme} {d : Condition}
    (h : conjunction k ls = some (d, rest)) (hr : ∀ l ∈ rest.head?, l ≠ .word "OR") :
    disjunction (k + 1) ls = some (d, rest) := by
  rw [disjunction, h]
  split
  case h_1 c rest' heq =>
      cases heq
      exact absurd rfl (hr _ rfl)
  case h_2 => rfl

theorem disjunction_of_factor {k : Nat} {ls rest : List Lexeme} {d : Condition}
    (h : factor k ls = some (d, rest)) (hr : Closed rest) :
    disjunction (k + 2) ls = some (d, rest) :=
  disjunction_of_conjunction (conjunction_of_factor h (hr.ne_word "AND")) (hr.ne_word "OR")

theorem factor_of_predicate {ls : List Lexeme} {r : Condition × List Lexeme}
    (h : predicate ls = some r) (k : Nat) : factor (k + 1) ls = some r := by
  unfold factor
  split
  · contradiction
  · cases h
  · exact h

theorem factor_parens {f : Fragment} {k : Nat} {d : Condition} {rest : List Lexeme}
    (h : disjunction k (f.lexemes ++ .mark .rparen :: rest) = some (d, .mark .rparen :: rest)) :
    factor (k + 1) (f.parens.lexemes ++ rest) = some (d, rest) := by
  rw [Fragment.lexemes_parens, factor, h]

/-- A condition, `AND` and further conditions. -/
theorem conjunction_cons {k : Nat} {ls ls' rest : List Lexeme} {d e : Condition}
    (h : factor k ls = some (d, .word "AND" :: ls')) (h' : conjunction k ls' = some (e, rest)) :
    conjunction (k + 1) ls = some (.both d e, rest) := by
  rw [conjunction, h]
  simp [h']

/-- A condition, `OR` and further conditions. -/
theorem disjunction_cons {k : Nat} {ls ls' rest : List Lexeme} {d e : Condition}
    (h : factor k ls = some (d, .word "OR" :: ls'))
    (h' : disjunction (k + 1) ls' = some (e, rest)) :
    disjunction (k + 2) ls = some (.either d e, rest) := by
  have hc : conjunction (k + 1) ls = some (d, .word "OR" :: ls') :=
    conjunction_of_factor h fun l hl => by
      rw [← Option.some.inj hl]
      simp
  rw [disjunction, hc]
  simp [h']

end Condition

end RowGraph.Sql
