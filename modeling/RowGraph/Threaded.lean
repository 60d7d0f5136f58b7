/-!
# Threaded — work on a state

Work reads a state and changes it on the way, and may be refused (`Threaded`).  A refusal takes
nothing back: the state behind it is the one the work had come to (`outcome`), so that whether
refused work leaves a trace depends on what it does.
-/

namespace RowGraph

/-- Work that a state is threaded through, and kept if it is refused. -/
abbrev Threaded (σ ε α : Type) := ExceptT ε (StateM σ) α

variable {σ ε α β : Type}

/-- What work comes to in a state, and the state behind it. -/
def outcome (x : Threaded σ ε α) (s : σ) : Except ε α × σ := x.run.run s

/-- What work comes to together with the state behind it, if it is not refused. -/
def accepted (x : Threaded σ ε α) (s : σ) : Except ε (α × σ) :=
  match outcome x s with
  | (.ok a, s') => .ok (a, s')
  | (.error e, _) => .error e

theorem outcome_pure (a : α) (s : σ) : outcome (pure a : Threaded σ ε α) s = (.ok a, s) := rfl

theorem outcome_throw (e : ε) (s : σ) :
    outcome (throw e : Threaded σ ε α) s = (.error e, s) := rfl

theorem outcome_lift (x : Except ε α) (s : σ) :
    outcome (liftM x : Threaded σ ε α) s = (x, s) := rfl

theorem outcome_get (s : σ) : outcome (get : Threaded σ ε σ) s = (.ok s, s) := rfl

theorem outcome_set (s' s : σ) : outcome (set s' : Threaded σ ε PUnit) s = (.ok ⟨⟩, s') := rfl

/-- What comes second goes on in the state that the first leaves, unless that is refused. -/
theorem outcome_bind (x : Threaded σ ε α) (f : α → Threaded σ ε β) (s : σ) :
    outcome (x >>= f) s =
      match outcome x s with
      | (.ok a, s') => outcome (f a) s'
      | (.error e, s') => (.error e, s') := by
  have h : outcome (x >>= f) s =
      outcome (ExceptT.bindCont f (outcome x s).1 : StateM σ (Except ε β)) (outcome x s).2 := rfl
  rw [h]
  split
  case h_1 a s' hx => rw [hx]; rfl
  case h_2 e s' hx => rw [hx]; rfl

/-! ### Changes at the end -/

/-- What work comes to that makes the change `k` at the end, and only if it has a result. -/
def committed (x : Except ε α) (k : α → σ) (s : σ) : Except ε α × σ :=
  match x with
  | .ok a => (.ok a, k a)
  | .error e => (.error e, s)

/-- Something that is only read comes before the change. -/
theorem outcome_lift_bind {x : Except ε α} {f : α → Threaded σ ε β} {g : α → Except ε β}
    {k : β → σ} {s : σ} (h : ∀ a, x = .ok a → outcome (f a) s = committed (g a) k s) :
    outcome (liftM x >>= f) s = committed (x >>= g) k s := by
  rw [outcome_bind, outcome_lift]
  cases x with
  | error e => rfl
  | ok a => exact h a rfl

theorem accepted_of_committed {w : Threaded σ ε α} {x : Except ε α} {k : α → σ} {s : σ}
    (h : outcome w s = committed x k s) : accepted w s = x.map fun a => (a, k a) := by
  rw [accepted, h]
  cases x <;> rfl

end RowGraph
