import RowGraph.Draw

/-!
# Proofs — computations that succeed

A sequence of computations succeeds if each of them does.  `bind_eq_ok` says so of results that
may be errors, and `Draw.yields_bind` of computations that draw parameters, which it adds up.

`Settles` says of a result where there is one and why there may be none.  `Draw.map` hands a result
on and leaves refusals and what is drawn as they are.
-/

namespace RowGraph

theorem bind_eq_ok {ε α β : Type} {x : Except ε α} {f : α → Except ε β} {b : β}
    (h : x >>= f = .ok b) : ∃ a, x = .ok a ∧ f a = .ok b := by
  cases x with
  | error e => cases h
  | ok a => exact ⟨a, rfl, h⟩

/-- Results that are computed one by one come from the items they are computed of. -/
theorem exists_of_mapM_eq_ok {ε α β : Type} {f : α → Except ε β} {as : List α} {bs : List β}
    (h : as.mapM f = .ok bs) : ∀ b ∈ bs, ∃ a ∈ as, f a = .ok b := by
  induction as generalizing bs with
  | nil =>
      cases h
      simp
  | cons a as ih =>
      rw [List.mapM_cons] at h
      obtain ⟨b, hb, h⟩ := bind_eq_ok h
      obtain ⟨cs, hcs, h⟩ := bind_eq_ok h
      cases h
      intro d hd
      rcases List.mem_cons.mp hd with rfl | hd
      · exact ⟨a, List.mem_cons_self, hb⟩
      · obtain ⟨a', ha', hd⟩ := ih hcs d hd
        exact ⟨a', List.mem_cons_of_mem a ha', hd⟩

/-- Results that a function says are those of the function. -/
theorem eq_map_of_mapM_eq_ok {ε α β : Type} {f : α → Except ε β} {g : α → β}
    (hf : ∀ a b, f a = .ok b → b = g a) {as : List α} {bs : List β} (h : as.mapM f = .ok bs) :
    bs = as.map g := by
  induction as generalizing bs with
  | nil =>
      cases h
      rfl
  | cons a as ih =>
      rw [List.mapM_cons] at h
      obtain ⟨b, hb, h⟩ := bind_eq_ok h
      obtain ⟨cs, hcs, h⟩ := bind_eq_ok h
      cases h
      rw [List.map_cons, hf a b hb, ih hcs]

/-! ### Where there is a result -/

section

variable {α β : Type} {R : Error → Prop} {P Q : Prop}

/-- There is a result exactly if `P` holds, and where there is none the reason is one of `R`. -/
structure Settles (R : Error → Prop) (x : Except Error α) (P : Prop) : Prop where
  ok_iff : (∃ a, x = .ok a) ↔ P
  reason : ∀ e, x = .error e → R e

theorem settles_ok (a : α) (hP : P) : Settles R (.ok a) P :=
  ⟨⟨fun _ => hP, fun _ => ⟨a, rfl⟩⟩, fun _ h => by cases h⟩

theorem settles_error {e : Error} (he : R e) (hP : ¬ P) : Settles R (.error e : Except Error α) P :=
  ⟨⟨fun ⟨_, h⟩ => (by cases h), fun h => absurd h hP⟩, fun _ h => by cases h; exact he⟩

namespace Settles

variable {x : Except Error α}

theorem congr (h : Settles R x P) (hPQ : P ↔ Q) : Settles R x Q := ⟨h.ok_iff.trans hPQ, h.reason⟩

theorem mono {R' : Error → Prop} (h : Settles R x P) (hR : ∀ e, R e → R' e) : Settles R' x P :=
  ⟨h.ok_iff, fun e he => hR e (h.reason e he)⟩

/-- What comes second is settled where there is a first result. -/
theorem bind {f : α → Except Error β} (hx : Settles R x P)
    (hf : ∀ a, x = .ok a → P → Settles R (f a) Q) : Settles R (x >>= f) (P ∧ Q) := by
  cases x with
  | error e =>
      exact settles_error (hx.reason e rfl) fun h => by
        obtain ⟨a, ha⟩ := hx.ok_iff.mpr h.1
        cases ha
  | ok a =>
      have hP : P := hx.ok_iff.mp ⟨a, rfl⟩
      exact (hf a rfl hP).congr (and_iff_right hP).symm

theorem bind_ok {f : α → β} (hx : Settles R x P) :
    Settles R (x >>= fun a => (pure (f a) : Except Error β)) P :=
  (hx.bind fun a _ _ => settles_ok (f a) trivial).congr (and_iff_left trivial)

theorem mapM {f : α → Except Error β} {P : α → Prop} {as : List α}
    (h : ∀ a ∈ as, Settles R (f a) (P a)) : Settles R (as.mapM f) (∀ a ∈ as, P a) := by
  induction as with
  | nil => exact settles_ok [] fun _ h => absurd h List.not_mem_nil
  | cons a as ih =>
      obtain ⟨ha, has⟩ := List.forall_mem_cons.mp h
      rw [List.mapM_cons, List.forall_mem_cons]
      exact ha.bind fun b _ _ => (ih has).bind_ok

end Settles

end

/-! ### Drawing parameters -/

namespace Draw

variable {α β γ : Type}

/-- The result is `a`, with `k` parameters drawn. -/
def Yields (x : Draw α) (a : α) (k : Nat) : Prop := x = ⟨.ok a, k⟩

theorem yields_pure {a b : α} {k : Nat} (h : (pure a : Draw α).Yields b k) : a = b ∧ k = 0 := by
  cases h
  exact ⟨rfl, rfl⟩

theorem yields_yield {a b : α} {n k : Nat} (h : (Draw.yield n a).Yields b k) : a = b ∧ k = n := by
  cases h
  exact ⟨rfl, rfl⟩

theorem yields_lift {x : Except Error α} {a : α} {k : Nat} (h : (Draw.lift x).Yields a k) :
    x = .ok a ∧ k = 0 := by
  cases h
  exact ⟨rfl, rfl⟩

theorem not_yields_refuse {e : Error} {a : α} {k : Nat} : ¬ (Draw.refuse e).Yields a k := by
  intro h
  cases h

/-- A sequence succeeds if both of its parts do, and draws what they draw. -/
theorem yields_bind {x : Draw α} {f : α → Draw β} {b : β} {k : Nat} (h : (x >>= f).Yields b k) :
    ∃ a i j, x.Yields a i ∧ (f a).Yields b j ∧ k = i + j := by
  obtain ⟨r, i⟩ := x
  cases r with
  | error e => cases h
  | ok a =>
      refine ⟨a, i, (f a).drawn, rfl, ?_, ?_⟩
      · exact congrArg (fun y : Draw β => (⟨y.result, (f a).drawn⟩ : Draw β)) h
      · exact (congrArg Draw.drawn h).symm

theorem result_bind (x : Draw α) (f : α → Draw β) :
    (x >>= f).result = x.result >>= fun a => (f a).result := by
  obtain ⟨r, n⟩ := x
  cases r <;> rfl

/-! ### Going on with a result -/

/-- The result handed on; a refusal and what was drawn stay. -/
def map (f : α → β) (x : Draw α) : Draw β := ⟨x.result.map f, x.drawn⟩

@[simp] theorem map_pure (f : α → β) (a : α) : (pure a : Draw α).map f = pure (f a) := rfl

@[simp] theorem map_lift (f : α → β) (x : Except Error α) : (lift x).map f = lift (x.map f) := rfl

@[simp] theorem map_yield (f : α → β) (n : Nat) (a : α) : (yield n a).map f = yield n (f a) := rfl

@[simp] theorem map_refuse (f : α → β) (e : Error) : (refuse e : Draw α).map f = refuse e := rfl

@[simp] theorem map_bind (f : α → Draw β) (g : β → γ) (x : Draw α) :
    (x >>= f).map g = x >>= fun a => (f a).map g := by
  obtain ⟨r, n⟩ := x
  cases r <;> rfl

@[simp] theorem bind_map (g : α → β) (f : β → Draw γ) (x : Draw α) :
    x.map g >>= f = x >>= fun a => f (g a) := by
  obtain ⟨r, n⟩ := x
  cases r <;> rfl

@[simp] theorem lift_map_bind (g : α → β) (f : β → Draw γ) (x : Except Error α) :
    lift (x.map g) >>= f = lift x >>= fun a => f (g a) :=
  bind_map g f (lift x)

end Draw

end RowGraph
