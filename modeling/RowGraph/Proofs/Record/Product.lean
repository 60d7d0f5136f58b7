import Mathlib.Data.List.Basic

/-!
# Proofs — Record — folding a product of choices

Several loops inside each other run through the product of their choices (`product`), the
innermost fastest.  States side by side, each of which takes the choice of its own loop, meet
their choices over and over: the first state each of its own as often as the inner loops run, the
others all of theirs once for each choice of the first.

If taking the choices of a loop a second time changes nothing, **folding the product is the same
as folding each loop by itself** (`foldl_act_product`), as long as no loop is empty.
-/

namespace RowGraph

variable {ι σ α : Type}

/-- The ways to choose one of each, the last choice changing fastest. -/
def product : List (List α) → List (List α)
  | [] => [[]]
  | l :: ls => l.flatMap fun a => (product ls).map (a :: ·)

theorem mem_product {as : List α} {ls : List (List α)} :
    as ∈ product ls ↔ List.Forall₂ (· ∈ ·) as ls := by
  induction ls generalizing as with
  | nil =>
      rw [product, List.mem_singleton]
      constructor
      · rintro rfl
        exact .nil
      · rintro ⟨⟩
        rfl
  | cons l ls ih =>
      rw [product, List.mem_flatMap]
      constructor
      · rintro ⟨a, ha, h⟩
        obtain ⟨bs, hbs, rfl⟩ := List.mem_map.mp h
        exact .cons ha (ih.mp hbs)
      · rintro (_ | ⟨ha, hbs⟩)
        exact ⟨_, ha, List.mem_map.mpr ⟨_, ih.mpr hbs, rfl⟩⟩

theorem product_eq_nil {ls : List (List α)} : product ls = [] ↔ ∃ l ∈ ls, l = [] := by
  induction ls with
  | nil => simp [product]
  | cons l ls ih =>
      constructor
      · intro h
        rcases l with _ | ⟨a, l⟩
        · exact ⟨[], by simp, rfl⟩
        · rw [product, List.flatMap_cons, List.append_eq_nil_iff, List.map_eq_nil_iff] at h
          obtain ⟨l', hl', hn⟩ := ih.mp h.1
          exact ⟨l', List.mem_cons_of_mem _ hl', hn⟩
      · rintro ⟨l', hl', rfl⟩
        rcases List.mem_cons.mp hl' with rfl | hl'
        · rfl
        · rw [product, ih.mpr ⟨[], hl', rfl⟩]
          simp

theorem product_ne_nil {ls : List (List α)} (h : ∀ l ∈ ls, l ≠ []) : product ls ≠ [] := by
  intro hp
  obtain ⟨l, hl, hn⟩ := product_eq_nil.mp hp
  exact h l hl hn

/-- Choices that each meet a condition are made one by one. -/
theorem exists_mem_product_map {l : ι → List α} {Q : α → ι → Prop} {is : List ι} :
    (∃ as ∈ product (is.map l), List.Forall₂ Q as is) ↔ ∀ i ∈ is, ∃ a ∈ l i, Q a i := by
  induction is with
  | nil => simp [product]
  | cons i is ih =>
      rw [List.forall_mem_cons, ← ih, List.map_cons, product]
      constructor
      · rintro ⟨as, hm, hq⟩
        obtain ⟨a, ha, hm⟩ := List.mem_flatMap.mp hm
        obtain ⟨bs, hbs, rfl⟩ := List.mem_map.mp hm
        obtain ⟨hqa, hqs⟩ := List.forall₂_cons.mp hq
        exact ⟨⟨a, ha, hqa⟩, bs, hbs, hqs⟩
      · rintro ⟨⟨a, ha, hqa⟩, bs, hbs, hqs⟩
        exact ⟨a :: bs, List.mem_flatMap.mpr ⟨a, ha, List.mem_map_of_mem hbs⟩, .cons hqa hqs⟩

/-- States side by side, each taking its own choice. -/
def act (f : ι → σ → α → σ) : List ι → List σ → List α → List σ
  | i :: is, s :: ss, a :: as => f i s a :: act f is ss as
  | _, _, _ => []

theorem act_map (f : ι → σ → α → σ) (is : List ι) (s : ι → σ) (a : ι → α) :
    act f is (is.map s) (is.map a) = is.map fun i => f i (s i) (a i) := by
  induction is with
  | nil => rfl
  | cons i is ih => rw [List.map_cons, List.map_cons, act, ih, List.map_cons]

/-- States that each do with the same thing what they do with their own choice. -/
theorem zipWith_eq_act {f : ι → σ → α → σ} {g : ι → σ → σ} {as : List α} {is : List ι}
    (h : List.Forall₂ (fun a i => ∀ s, g i s = f i s a) as is) (ss : List σ) :
    is.zipWith g ss = act f is ss as := by
  induction h generalizing ss with
  | nil => rfl
  | cons ha _ ih =>
      rcases ss with _ | ⟨s, ss⟩
      · rfl
      · rw [List.zipWith_cons_cons, act, ha, ih]

/-- The first state takes its choice as often as the others take theirs. -/
theorem foldl_act_cons (f : ι → σ → α → σ) (i : ι) (is : List ι) (s : σ) (ss : List σ) (a : α)
    (m : List (List α)) :
    (m.map (a :: ·)).foldl (act f (i :: is)) (s :: ss) =
      m.foldl (fun s _ => f i s a) s :: m.foldl (act f is) ss := by
  induction m generalizing s ss with
  | nil => rfl
  | cons as m ih => exact ih (f i s a) (act f is ss as)

/-- Taking one choice again and again is taking it once. -/
theorem foldl_const {g : σ → σ} (hg : ∀ s, g (g s) = g s) {β : Type} {m : List β} (hm : m ≠ [])
    (s : σ) : m.foldl (fun s _ => g s) s = g s := by
  induction m generalizing s with
  | nil => exact absurd rfl hm
  | cons b m ih =>
      rcases m with _ | ⟨b', m⟩
      · rfl
      · rw [List.foldl_cons, ih (by simp), hg]

section

variable {f : ι → σ → α → σ}
  (hf : ∀ (i : ι) (s : σ) (l : List α), l.foldl (f i) (l.foldl (f i) s) = l.foldl (f i) s)

include hf

theorem act_foldl_idem :
    ∀ (is : List ι) (ss : List σ) (ls : List (List α)),
      act (fun i s l => l.foldl (f i) s) is (act (fun i s l => l.foldl (f i) s) is ss ls) ls =
        act (fun i s l => l.foldl (f i) s) is ss ls
  | [], _, _ => rfl
  | _ :: _, [], _ => rfl
  | _ :: _, _ :: _, [] => rfl
  | i :: is, s :: ss, l :: ls => by rw [act, act, hf, act_foldl_idem is ss ls]

/-- **Folding a product is folding each of its loops**, if none of them is empty and no state
changes when all choices of its loop are taken a second time. -/
theorem foldl_act_product :
    ∀ (is : List ι) (ss : List σ) {ls : List (List α)}, (∀ l ∈ ls, l ≠ []) →
      (product ls).foldl (act f is) ss = act (fun i s l => l.foldl (f i) s) is ss ls
  | [], ss, ls, hne => foldl_const (g := fun _ => []) (fun _ => rfl) (product_ne_nil hne) ss
  | i :: is, [], ls, _ => by
      have h : ∀ m : List (List α), m.foldl (act f (i :: is)) [] = [] := by
        intro m
        induction m with
        | nil => rfl
        | cons as m ih => exact ih
      exact h (product ls)
  | _ :: _, _ :: _, [], _ => rfl
  | i :: is, s :: ss, l :: ls, hne => by
      have hne' : ∀ l ∈ ls, l ≠ [] := fun l' h => hne l' (List.mem_cons_of_mem l h)
      let F : List σ → List σ := fun ss => act (fun i s l => l.foldl (f i) s) is ss ls
      -- one round of the inner loops, for the choice `a` of the outer one
      have round : ∀ (a : α) (s : σ) (ts : List σ),
          ((product ls).map (a :: ·)).foldl (act f (i :: is)) (s :: ts) = f i s a :: F ts := by
        intro a s ts
        have hfa : ∀ s, f i (f i s a) a = f i s a := fun s => hf i s [a]
        rw [foldl_act_cons, foldl_const hfa (product_ne_nil hne'),
          foldl_act_product is ts hne']
      have rounds : ∀ (l : List α) (s : σ) (ts : List σ),
          (l.flatMap fun a => (product ls).map (a :: ·)).foldl (act f (i :: is)) (s :: ts) =
            l.foldl (f i) s :: l.foldl (fun ts _ => F ts) ts := by
        intro l
        induction l with
        | nil => exact fun _ _ => rfl
        | cons a l ih =>
            intro s ts
            rw [List.flatMap_cons, List.foldl_append, round, List.foldl_cons, List.foldl_cons]
            exact ih (f i s a) (F ts)
      have hF : ∀ ts, F (F ts) = F ts := fun ts => act_foldl_idem hf is ts ls
      rw [product, rounds, foldl_const hF (hne l List.mem_cons_self), act]

end

end RowGraph
