import RowGraph.Counter

/-!
# Proofs — work on counters

What drawing a place comes to (`outcome_draw`), on a counter without a last place and on a word.

A simulation relates work on the counter without a last place to work on another counter, drawing
for drawing (`Simulation`).  Two simulations relate what the work comes to by an equation: on a
counter whose states go along with the places (`Simulation.along`), and on a word that stops at its
last place (`Simulation.bounded`), which is overrun exactly if the place after the last does not
fit.
-/

namespace RowGraph

variable {σ ε τ δ α β : Type}

/-! ### What work comes to -/

theorem outcome_refuse (C : Counter σ ε) (e : Error) (s : σ) :
    outcome (C.refuse e : Threaded σ ε α) s = (.error (C.refused e), s) := rfl

theorem outcome_draw (C : Counter σ ε) (s : σ) :
    outcome C.draw s =
      match C.next s with
      | .ok s' => (.ok (C.place s), s')
      | .error e => (.error e, s) := by
  rw [Counter.draw, outcome_bind, outcome_get]
  dsimp only
  cases C.next s <;> rfl

/-! ### Words -/

theorem place_wrapping_ofNat (n : Nat) : Counter.wrapping.place (.ofNat n) = n % UInt64.size :=
  UInt64.toNat_ofNat'

theorem place_checked_ofNat {n : Nat} (h : n < UInt64.size) :
    Counter.checked.place (.ofNat n) = n :=
  UInt64.toNat_ofNat_of_lt' h

theorem ofNat_succ (n : Nat) : UInt64.ofNat (n + 1) = .ofNat n + 1 := by
  rw [UInt64.ofNat_add n 1, UInt64.ofNat_one]

theorem outcome_draw_unbounded (n : Nat) : outcome Counter.unbounded.draw n = (.ok n, n + 1) := rfl

theorem outcome_draw_checked {n : Nat} (h : n < UInt64.size) :
    outcome Counter.checked.draw (.ofNat n) =
      if n + 1 < UInt64.size then (.ok n, .ofNat (n + 1)) else (.error .overrun, .ofNat n) := by
  have hn : (UInt64.ofNat n).toNat = n := UInt64.toNat_ofNat_of_lt' h
  have hnext : Counter.checked.next (.ofNat n) =
      if n + 1 < UInt64.size then .ok (.ofNat (n + 1)) else .error .overrun := by
    simp only [Counter.checked, hn, ofNat_succ]
  rw [outcome_draw, hnext, place_checked_ofNat h]
  by_cases hn' : n + 1 < UInt64.size
  · rw [if_pos hn', if_pos hn']
  · rw [if_neg hn', if_neg hn']

/-! ### Simulations -/

/-- How work on a counter follows work on the counter without a last place, to `t a` where that
comes to `a`.  Everything that work is put together from follows; what is drawn is moved. -/
structure Simulation (D : Counter τ δ) (move : Nat → Nat) where
  Follows {α β : Type} (t : α → β) (x : Threaded Nat Error α) (y : Threaded τ δ β) : Prop
  pure {α β : Type} (t : α → β) (a : α) : Follows t (pure a) (pure (t a))
  refuse {α β : Type} (t : α → β) (e : Error) : Follows t (Counter.unbounded.refuse e) (D.refuse e)
  bind {α β γ κ : Type} {t : α → β} {u : γ → κ} {x : Threaded Nat Error α} {y : Threaded τ δ β}
    {f : α → Threaded Nat Error γ} {g : β → Threaded τ δ κ} (h : Follows t x y)
    (hf : ∀ a, Follows u (f a) (g (t a))) : Follows u (x >>= f) (y >>= g)
  draw : Follows move Counter.unbounded.draw D.draw

namespace Simulation

section

variable {D : Counter τ δ} {move : Nat → Nat} (S : Simulation D move)

theorem pure_of {t : α → β} {a : α} {b : β} (h : t a = b) :
    S.Follows t (Pure.pure a) (Pure.pure b) :=
  h ▸ S.pure t a

theorem check (x : Except Error α) :
    S.Follows id (Counter.unbounded.check x) (D.check x) := by
  cases x with
  | ok a => exact S.pure id a
  | error e => exact S.refuse id e

end

/-- On a counter whose states go along with the places the same is done. -/
def along (D : Counter τ Error) (move : Nat → Nat) (g : Nat → τ)
    (refused : ∀ e, D.refused e = e) (place : ∀ s, D.place (g s) = move s)
    (next : ∀ s, D.next (g s) = .ok (g (s + 1))) : Simulation D move where
  Follows t x y := ∀ s, outcome y (g s) = ((outcome x s).1.map t, g (outcome x s).2)
  pure t a s := rfl
  refuse t e s := by
    rw [outcome_refuse, outcome_refuse, refused]
    rfl
  bind h hf s := by
    rw [outcome_bind, outcome_bind, h s]
    rcases outcome _ s with ⟨e | a, s'⟩
    · rfl
    · exact hf a s'
  draw s := by
    rw [outcome_draw, outcome_draw, next, place]
    rfl

/-- On a counter without a last place that starts `n` places on. -/
def shifted (n : Nat) : Simulation .unbounded (· + n) :=
  along .unbounded (· + n) (· + n) (fun _ => rfl) (fun _ => rfl)
    fun s => congrArg Except.ok (Nat.add_right_comm s n 1)

/-- On a word that starts `n` places on and goes on from zero behind its last place. -/
def wrapped (n : UInt64) : Simulation .wrapping fun s => (s + n.toNat) % UInt64.size :=
  along .wrapping _ (fun s => .ofNat (s + n.toNat)) (fun _ => rfl)
    (fun s => place_wrapping_ofNat (s + n.toNat))
    fun s => by
      rw [Nat.add_right_comm, ofNat_succ]
      rfl

/-- An outcome on a word that stops at its last place: overrun, if the place after the last does not
fit. -/
def cut : Except Error α × Nat → Except Stop α × UInt64
  | (r, n) =>
      if n < UInt64.size then (r.mapError .refused, .ofNat n)
      else (.error .overrun, .ofNat (UInt64.size - 1))

theorem cut_of_lt {r : Except Error α} {n : Nat} (h : n < UInt64.size) :
    cut (r, n) = (r.mapError .refused, .ofNat n) := if_pos h

theorem cut_of_not_lt {r : Except Error α} {n : Nat} (h : ¬ n < UInt64.size) :
    cut (r, n) = (.error .overrun, .ofNat (UInt64.size - 1)) := if_neg h

/-- On a word that starts `n` places on and stops at its last place.  Work does not take the counter
back, so that what follows an overrun does not fit either. -/
def bounded (n : Nat) : Simulation .checked (· + n) where
  Follows t x y := ∀ s, s ≤ (outcome x s).2 ∧ (s + n < UInt64.size →
    outcome y (.ofNat (s + n)) = cut ((outcome x s).1.map t, (outcome x s).2 + n))
  pure t a s := by
    refine ⟨Nat.le_refl s, fun hs => ?_⟩
    rw [outcome_pure, outcome_pure, cut_of_lt hs]
    rfl
  refuse t e s := by
    refine ⟨Nat.le_refl s, fun hs => ?_⟩
    rw [outcome_refuse, outcome_refuse, cut_of_lt hs]
    rfl
  bind {α β γ κ t u x y f g} h hf s := by
    obtain ⟨hle, hy⟩ := h s
    rw [outcome_bind, outcome_bind]
    generalize outcome x s = o at hle hy ⊢
    obtain ⟨e | a, s'⟩ := o
    · refine ⟨hle, fun hs => ?_⟩
      rw [hy hs]
      by_cases hs' : s' + n < UInt64.size
      · rw [cut_of_lt hs', cut_of_lt hs']
        rfl
      · rw [cut_of_not_lt hs', cut_of_not_lt hs']
    · obtain ⟨hle', hg⟩ := hf a s'
      refine ⟨Nat.le_trans hle hle', fun hs => ?_⟩
      rw [hy hs]
      by_cases hs' : s' + n < UInt64.size
      · rw [cut_of_lt hs']
        exact hg hs'
      · rw [cut_of_not_lt hs', cut_of_not_lt (by dsimp only; omega)]
  draw s := by
    rw [outcome_draw_unbounded]
    refine ⟨Nat.le_succ s, fun hs => ?_⟩
    rw [outcome_draw_checked hs, Nat.add_right_comm s n 1]
    by_cases hs' : s + 1 + n < UInt64.size
    · rw [if_pos hs', cut_of_lt hs']
      rfl
    · have hlast : s + n = UInt64.size - 1 := by omega
      rw [if_neg hs', cut_of_not_lt hs', hlast]

end Simulation

end RowGraph
