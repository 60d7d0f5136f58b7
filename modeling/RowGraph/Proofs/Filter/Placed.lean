import RowGraph.Filter.Compile
import RowGraph.Proofs.Counter
import RowGraph.Proofs.Sql.Numbering

/-!
# Proofs — Filter — putting a filter in its place

`Fragment.placed q move` puts every identifier of a fragment behind the qualifier `q` and moves
every parameter from the name drawn in one place to the name drawn in another.  Values and all other
chunks stay.

A filter is written behind `q` on one counter as it is written on its own on the counter without a
last place, put in its place: step by step, where the one counter simulates the other
(`Simulation.follows_write`).  A name is compared with no other and computed from nothing but the
place it is drawn in.

**A filter compiles behind a qualifier and from a place on as it does on its own, put in that
place** (`compileBy_iff_placed`), on a counter that has places as they are, and on words.
-/

namespace RowGraph

namespace Sql

/-! ### Placing a fragment -/

/-- The place that the parameter of this name is drawn in. -/
def paramPlace (name : String) : Nat := Nat.ofDigitChars 10 (name.toList.drop 5) 0

theorem paramPlace_paramName (n : Nat) : paramPlace (paramName n) = n := by
  rw [paramPlace, toList_paramName]
  exact ofDigitChars_toString n

/-- The chunk behind `q` if it is an identifier, and moved if it is a parameter. -/
def Chunk.placed (q : Option String) (move : Nat → Nat) : Chunk → Fragment
  | .ident name => .column q name
  | .param name value => .param (move (paramPlace name)) value
  | c => [c]

namespace Fragment

def placed (q : Option String) (move : Nat → Nat) (f : Fragment) : Fragment :=
  f.flatMap (Chunk.placed q move)

variable (q : Option String) (move : Nat → Nat)

theorem placed_append (f g : Fragment) :
    placed q move (f ++ g) = f.placed q move ++ g.placed q move :=
  List.flatMap_append

theorem placed_token (t : Token) : (token t).placed q move = token t := rfl

theorem placed_column (name : String) : (column none name).placed q move = column q name :=
  List.append_nil _

theorem placed_param (n : Nat) (v : Value) : (param n v).placed q move = param (move n) v := by
  have h : (param n v).placed q move = param (move (paramPlace (paramName n))) v :=
    List.append_nil _
  rw [h, paramPlace_paramName]

theorem placed_parens (f : Fragment) : f.parens.placed q move = (f.placed q move).parens := by
  have h : f.parens = token .lparen ++ f ++ token .rparen := rfl
  rw [h, placed_append, placed_append]
  rfl

theorem placed_call (name : String) (f : Fragment) :
    (call name f).placed q move = call name (f.placed q move) := by
  have h : (call name f).placed q move = .raw name :: f.parens.placed q move := rfl
  rw [h, placed_parens, call]

theorem placed_join (t : Token) :
    ∀ fs : List Fragment, (join t fs).placed q move = join t (fs.map (placed q move))
  | [] => rfl
  | [_] => rfl
  | f :: g :: fs => by
      have h : join t (f :: g :: fs) = f ++ token t ++ join t (g :: fs) := by
        rw [List.append_assoc]
        rfl
      rw [h, placed_append, placed_append, placed_join t (g :: fs), List.append_assoc]
      rfl

theorem map_placed_parens (fs : List Fragment) :
    (fs.map parens).map (placed q move) = (fs.map (placed q move)).map parens := by
  rw [List.map_map, List.map_map]
  exact List.map_congr_left fun f _ => placed_parens q move f

/-- What is placed is placed again, from where it is. -/
theorem placed_placed (move' : Nat → Nat) (f : Fragment) :
    (f.placed none move).placed q move' = f.placed q (move' ∘ move) := by
  rw [placed, placed, placed, List.flatMap_assoc]
  refine List.flatMap_congr fun c _ => ?_
  cases c with
  | param name v => exact placed_param q move' (move (paramPlace name)) v
  | ident name => exact placed_column q move' name
  | _ => rfl

end Fragment

end Sql

/-! ### Placing clauses -/

namespace Filter

open Sql Fragment

variable (q : Option String) (move : Nat → Nat)

/-- The fragments, each in its place. -/
abbrev placedAll : List Fragment → List Fragment := List.map (placed q move)

theorem placed_isClause (column : String) (negated : Bool) (k : Keyword) :
    (isClause none column negated k).placed q move = isClause q column negated k := by
  simp only [isClause, placed_append, placed_column, placed_token]

theorem placed_allOf (fs : List Fragment) :
    (allOf fs).placed q move = allOf (placedAll q move fs) := by
  match fs with
  | [] => rfl
  | [f] => rfl
  | f :: g :: fs =>
      have h : allOf (f :: g :: fs) = .join .and ((f :: g :: fs).map .parens) := rfl
      rw [h, placed_join, map_placed_parens]
      rfl

theorem placed_combined (c : Connective) (fs : List Fragment) :
    (combined c fs).placed q move = combined c (placedAll q move fs) := by
  match fs with
  | [] => rfl
  | f :: fs =>
      have h : combined c (f :: fs) = .join c.token ((f :: fs).map .parens) := rfl
      rw [h, placed_join, map_placed_parens]
      rfl

end Filter

/-! ### Placing what is written -/

namespace Simulation

open Sql Fragment RowGraph.Filter

variable {τ δ : Type} {D : Counter τ δ} {move : Nat → Nat} (S : Simulation D move)
  (q : Option String)

theorem follows_param (v : Value) :
    S.Follows (placed q move) (writeParam .unbounded v) (writeParam D v) :=
  S.bind S.draw fun n => S.pure_of (placed_param q move n v)

theorem follows_params (path : String) (i : Nat) (items : List Node) :
    S.Follows (placedAll q move) (writeParams .unbounded path i items)
      (writeParams D path i items) := by
  induction items generalizing i with
  | nil => exact S.pure_of rfl
  | cons node items ih =>
      refine S.bind (S.check _) fun v => S.bind (S.follows_param q v) fun p => ?_
      exact S.bind (ih (i + 1)) fun ps => S.pure_of rfl

theorem follows_comparison (path column : String) (o : Operator) (c : Comparison) (v : Value) :
    S.Follows (placed q move) (writeComparison .unbounded none path column o c v)
      (writeComparison D q path column o c v) := by
  have hother : S.Follows (placed q move)
      (do let p ← writeParam .unbounded v; return .column none column ++ .token c.token ++ p)
      (do let p ← writeParam D v; return .column q column ++ .token c.token ++ p) :=
    S.bind (S.follows_param q v) fun p => S.pure_of (by
      simp only [placed_append, placed_column, placed_token])
  cases v with
  | null =>
      cases c with
      | eq => exact S.pure_of (placed_isClause q move column false .null)
      | ne => exact S.pure_of (placed_isClause q move column true .null)
      | _ => exact S.refuse _ _
  | _ => exact hother

theorem follows_membership (path column : String) (negated : Bool) (items : List Node) :
    S.Follows (placed q move) (writeMembership .unbounded none path column negated items)
      (writeMembership D q path column negated items) := by
  cases items with
  | nil => exact S.pure_of rfl
  | cons node items =>
      refine S.bind (S.follows_params q path 0 (node :: items)) fun ps => S.pure_of ?_
      simp only [placed_append, placed_column, placed_token, placed_parens, commas, placed_join]

theorem follows_operation (path column : String) (o : Operator) (node : Node) :
    S.Follows (placed q move) (writeOperation .unbounded none path column o node)
      (writeOperation D q path column o node) := by
  unfold writeOperation
  generalize o.operand = k
  match k, node with
  | .comparison c, node =>
      exact S.bind (S.check _) fun v => S.follows_comparison q path column o c v
  | .keyword negated, node =>
      refine S.bind (S.check _) fun v => ?_
      dsimp only [id]
      cases keywordOf? v with
      | some k => exact S.pure_of (placed_isClause q move column negated k)
      | none => exact S.refuse _ _
  | .list negated, .list items => exact S.follows_membership q path column negated items
  | .range negated, .list [low, high] =>
      refine S.bind (S.check _) fun l => S.bind (S.check _) fun h => ?_
      refine S.bind (S.follows_param q l) fun first => S.bind (S.follows_param q h) fun second => ?_
      exact S.pure_of (by simp only [placed_append, placed_column, placed_token])
  | .contains, node =>
      refine S.bind (S.check _) fun v => S.bind (S.follows_param q v) fun p => S.pure_of ?_
      simp only [placed_append, placed_token, placed_call, placed_column]
  | .contained, .list items =>
      refine S.bind (S.check _) fun vs => S.bind (S.follows_param q (.array vs)) fun p => ?_
      exact S.pure_of (by simp only [placed_append, placed_column, placed_token, placed_call])
  | .list _, .scalar _ | .list _, .object _ | .range _, .scalar _ | .range _, .object _
  | .range _, .list [] | .range _, .list [_] | .range _, .list (_ :: _ :: _ :: _)
  | .contained, .scalar _ | .contained, .object _ => exact S.refuse _ _

theorem follows_column (path column : String) (node : Node) :
    S.Follows (placed q move) (writeColumn .unbounded none path column node)
      (writeColumn D q path column node) := by
  match node with
  | .scalar v =>
      have hother : S.Follows (placed q move)
          (do let p ← writeParam .unbounded v; return .column none column ++ .token .eq ++ p)
          (do let p ← writeParam D v; return .column q column ++ .token .eq ++ p) :=
        S.bind (S.follows_param q v) fun p => S.pure_of (by
          simp only [placed_append, placed_column, placed_token])
      cases v with
      | null => exact S.pure_of (placed_isClause q move column false .null)
      | _ => exact hother
  | .list items => exact S.follows_membership q path column false items
  | .object [(key, operand)] =>
      unfold writeColumn
      dsimp only
      cases Operator.ofKey? key with
      | some o => exact S.follows_operation q (childPath path key) column o operand
      | none => exact S.refuse _ _
  | .object [] | .object (_ :: _ :: _) => exact S.refuse _ _

mutual

theorem follows_clauses : ∀ (path : String) (es : List (String × Node)),
    S.Follows (placedAll q move) (writeClauses .unbounded none path es) (writeClauses D q path es)
  | path, [] => by
      rw [writeClauses, writeClauses]
      exact S.pure_of rfl
  | path, (key, node) :: rest => by
      rw [writeClauses, writeClauses]
      refine S.bind (follows_clause (childPath path key) key node) fun f => ?_
      exact S.bind (follows_clauses path rest) fun fs => S.pure_of rfl

theorem follows_clause : ∀ (path key : String) (node : Node),
    S.Follows (placed q move) (writeClause .unbounded none path key node)
      (writeClause D q path key node)
  | path, key, .list items => by
      rw [writeClause, writeClause]
      cases connective? key with
      | some c =>
          exact S.bind (follows_children path 0 items) fun fs =>
            S.pure_of (placed_combined q move c fs)
      | none => exact S.follows_column q path key (.list items)
  | path, key, .scalar v => by
      rw [writeClause, writeClause]
      · cases connective? key with
        | some c => exact S.refuse _ _
        | none => exact S.follows_column q path key (.scalar v)
      · simp
      · simp
  | path, key, .object es => by
      rw [writeClause, writeClause]
      · cases connective? key with
        | some c => exact S.refuse _ _
        | none => exact S.follows_column q path key (.object es)
      · simp
      · simp

theorem follows_children : ∀ (path : String) (i : Nat) (items : List Node),
    S.Follows (placedAll q move) (writeChildren .unbounded none path i items)
      (writeChildren D q path i items)
  | path, i, [] => by
      rw [writeChildren, writeChildren]
      exact S.pure_of rfl
  | path, i, .object entries :: rest => by
      rw [writeChildren, writeChildren]
      refine S.bind (follows_clauses (itemPath path i) entries) fun cs => ?_
      refine S.bind (follows_children path (i + 1) rest) fun fs => S.pure_of ?_
      exact congrArg (· :: placedAll q move fs) (placed_allOf q move cs)
  | path, i, .scalar v :: rest => by
      rw [writeChildren, writeChildren]
      · exact S.refuse _ _
      · simp
      · simp
  | path, i, .list items :: rest => by
      rw [writeChildren, writeChildren]
      · exact S.refuse _ _
      · simp
      · simp

end

/-- **A filter is written in its place, drawing for drawing**, on every counter that simulates the
one without a last place. -/
theorem follows_write (f : Filter) :
    S.Follows (placed q move) (write .unbounded none f) (write D q f) :=
  S.bind (S.follows_clauses q "" f) fun cs => S.pure_of (placed_allOf q move cs)

end Simulation

/-! ### Placing a filter -/

section Placing

open Sql Fragment

variable {σ ε : Type} (q : Option String)

/-- One outcome is another put in its place: it is refused for the same reason, its fragment is that
of the other behind `q`, with the parameters moved, and so is the place of the next parameter. -/
structure Counter.InPlace (C : Counter σ ε) (q : Option String) (move : Nat → Nat)
    (own run : Except ε Fragment × σ) : Prop where
  refused : ∀ e, run.1 = .error e ↔ own.1 = .error e
  written : ∀ g, run.1 = .ok g ↔ ∃ o, own.1 = .ok o ∧ g = o.placed q move
  next : C.place run.2 = move (C.place own.2)

theorem Counter.inPlace_map {C : Counter σ ε} {move : Nat → Nat} (r : Except ε Fragment) {s s' : σ}
    (h : C.place s' = move (C.place s)) :
    C.InPlace q move (r, s) (r.map (placed q move), s') where
  refused e := by cases r <;> simp [Except.map]
  written g := by cases r <;> simp [Except.map, eq_comm]
  next := h

/-- Two outcomes that are put in their places from a third. -/
theorem Counter.inPlace_of_placed {C : Counter σ ε} {first move both : Nat → Nat}
    (hmove : ∀ n, move (first n) = both n) (r : Except ε Fragment) {s s' : σ}
    (h : C.place s' = move (C.place s)) :
    C.InPlace q move (r.map (placed none first), s) (r.map (placed q both), s') := by
  obtain rfl : move ∘ first = both := funext hmove
  have hr : r.map (placed q (move ∘ first)) = (r.map (placed none first)).map (placed q move) := by
    cases r with
    | error e => rfl
    | ok g => exact congrArg Except.ok (placed_placed q first move g).symm
  rw [hr]
  exact inPlace_map q _ h

end Placing

namespace Filter

open Sql Fragment

variable (f : Filter) (q : Option String)

theorem compile_shifted (n : Nat) :
    f.compile q n = ((f.compile none 0).1.map (placed q (· + n)), (f.compile none 0).2 + n) := by
  have h : f.compile q (0 + n) = _ := (Simulation.shifted n).follows_write q f 0
  rw [Nat.zero_add] at h
  exact h

theorem compileBy_wrapping (n : UInt64) :
    f.compileBy .wrapping q n =
      ((f.compile none 0).1.map (placed q fun s => (s + n.toNat) % UInt64.size),
        .ofNat ((f.compile none 0).2 + n.toNat)) := by
  have h : f.compileBy .wrapping q (.ofNat (0 + n.toNat)) = _ :=
    (Simulation.wrapped n).follows_write q f 0
  rw [Nat.zero_add, UInt64.ofNat_toNat] at h
  exact h

/-- On a word that stops at its last place a filter compiles as on the counter without one, unless
the place after its last parameter does not fit. -/
theorem compileBy_checked (n : UInt64) :
    f.compileBy .checked q n = Simulation.cut (f.compile q n.toNat) := by
  have h := ((Simulation.bounded n.toNat).follows_write q f 0).2
  rw [Nat.zero_add, UInt64.ofNat_toNat] at h
  rw [compile_shifted]
  exact h n.toNat_lt_size

theorem inPlace_wrapping (n : UInt64) :
    Counter.wrapping.InPlace q (fun s => (s + n.toNat) % UInt64.size)
      (f.compileBy .wrapping none 0) (f.compileBy .wrapping q n) := by
  rw [compileBy_wrapping f none 0, compileBy_wrapping f q n]
  refine Counter.inPlace_of_placed q (fun s => Nat.mod_add_mod s UInt64.size n.toNat) _ ?_
  rw [place_wrapping_ofNat, place_wrapping_ofNat, Nat.mod_add_mod]
  rfl

theorem inPlace_checked {n : UInt64} (h : (f.compile q n.toNat).2 < UInt64.size) :
    Counter.checked.InPlace q (· + n.toNat) (f.compileBy .checked none 0)
      (f.compileBy .checked q n) := by
  rw [compileBy_checked f none 0, compileBy_checked f q n]
  rw [compile_shifted f q n.toNat] at h ⊢
  have hown : (f.compile none 0).2 < UInt64.size := Nat.lt_of_le_of_lt (Nat.le_add_right _ _) h
  rw [Simulation.cut_of_lt h]
  have hcut : Simulation.cut (f.compile none (0 : UInt64).toNat) =
      ((f.compile none 0).1.mapError .refused, .ofNat (f.compile none 0).2) :=
    Simulation.cut_of_lt hown
  have hmap : ((f.compile none 0).1.map (placed q (· + n.toNat))).mapError Stop.refused =
      ((f.compile none 0).1.mapError Stop.refused).map (placed q (· + n.toNat)) := by
    cases (f.compile none 0).1 <;> rfl
  rw [hcut, hmap]
  refine Counter.inPlace_map q _ ?_
  rw [place_checked_ofNat h, place_checked_ofNat hown]

/-- **A filter compiles behind `q` and from a place on as it does on its own, put there.**  It is
refused for the same reason, and the next parameter is as many places on as the first, after a
refusal too.  On words that go on from zero places are added as words.  On words that stop at their
last place the filter compiles so if the place after its last parameter fits, and otherwise the
counter is overrun. -/
theorem compileBy_iff_placed :
    (∀ n, Counter.unbounded.InPlace q (· + n) (f.compile none 0) (f.compile q n)) ∧
    ∀ n : UInt64,
      Counter.wrapping.InPlace q (fun s => (s + n.toNat) % UInt64.size)
        (f.compileBy .wrapping none 0) (f.compileBy .wrapping q n) ∧
      if (f.compile q n.toNat).2 < UInt64.size then
        Counter.checked.InPlace q (· + n.toNat) (f.compileBy .checked none 0)
          (f.compileBy .checked q n)
      else (f.compileBy .checked q n).1 = .error .overrun := by
  refine ⟨fun n => ?_, fun n => ⟨inPlace_wrapping f q n, ?_⟩⟩
  · rw [compile_shifted f q n]
    exact Counter.inPlace_map q _ rfl
  · split
    case isTrue h => exact inPlace_checked f q h
    case isFalse h =>
        rw [compileBy_checked]
        exact congrArg Prod.fst (Simulation.cut_of_not_lt h)

/-- Two parameters, the first at the last place of a word. -/
def lastPlaces : Filter := [("id", .list [.scalar (.int64 1), .scalar (.int64 2)])]

example : (lastPlaces.compileBy .wrapping none (.ofNat (UInt64.size - 1))).1.map Fragment.params =
    .ok [("param18446744073709551615", .int64 1), ("param0", .int64 2)] := rfl

example : lastPlaces.compileBy .checked none (.ofNat (UInt64.size - 1)) =
    (.error .overrun, .ofNat (UInt64.size - 1)) := rfl

end Filter

end RowGraph
