import Mathlib.Data.List.Basic

-- Rules for programs in `Except ε` that thread a state through loops.
namespace Fallible

variable {ε σ α β : Type _} {x : Except ε α} {f : α → Except ε β} {b : β}

theorem bind_eq_ok : x >>= f = .ok b ↔ ∃ a, x = .ok a ∧ f a = .ok b := by
  cases x <;> simp [bind, Except.bind]

theorem pure_eq_ok {a b : α} : (pure a : Except ε α) = .ok b ↔ a = b := by
  simp [pure, Except.pure]

-- What every iteration does to the state, the whole loop does. `P` may depend on the elements which
-- are still to come.
theorem foldlM_induct {l : List α} {f : σ → α → Except ε σ} {s s' : σ} (P : List α → σ → Prop)
    (step : ∀ a l s s', P (a :: l) s → f s a = .ok s' → P l s')
    (h : P l s) (hf : l.foldlM f s = .ok s') : P [] s' := by
  induction l generalizing s
  case nil =>
    cases pure_eq_ok.mp hf
    exact h
  case cons a l ih =>
    rw [List.foldlM_cons] at hf
    have ⟨s₁, h₁, h₂⟩ := bind_eq_ok.mp hf
    exact ih (step a l s s₁ h h₁) h₂

theorem foldlM_preserves {l : List α} {f : σ → α → Except ε σ} {s s' : σ} (P : σ → Prop)
    (step : ∀ a ∈ l, ∀ s s', P s → f s a = .ok s' → P s')
    (h : P s) (hf : l.foldlM f s = .ok s') : P s' :=
  (foldlM_induct (fun l' s => l' ⊆ l ∧ P s)
    (fun a _ _ _ ⟨hl, hp⟩ hf =>
      ⟨(List.subset_of_cons_subset hl), step a (hl List.mem_cons_self) _ _ hp hf⟩)
    ⟨List.Subset.refl l, h⟩ hf).2

-- The loop over the indices below `n`.
theorem foldlM_range_induct {n : Nat} {f : σ → Nat → Except ε σ} {s s' : σ} (P : Nat → σ → Prop)
    (step : ∀ i < n, ∀ s s', P i s → f s i = .ok s' → P (i + 1) s')
    (h : P 0 s) (hf : (List.range n).foldlM f s = .ok s') : P n s' := by
  induction n generalizing s'
  case zero =>
    cases pure_eq_ok.mp hf
    exact h
  case succ n ih =>
    rw [List.range_succ, List.foldlM_append] at hf
    have ⟨s₁, h₁, h₂⟩ := bind_eq_ok.mp hf
    simp only [List.foldlM_cons, List.foldlM_nil, bind_pure] at h₂
    exact step n (by omega) s₁ s' (ih (fun i hi => step i (by omega)) h₁) h₂

theorem foldlM_range_ok {n : Nat} {f : σ → Nat → Except ε σ} {s : σ} (P : Nat → σ → Prop)
    (step : ∀ i < n, ∀ s, P i s → ∃ s', f s i = .ok s' ∧ P (i + 1) s') (h : P 0 s) :
    ∃ s', (List.range n).foldlM f s = .ok s' ∧ P n s' := by
  induction n
  case zero => exact ⟨s, rfl, h⟩
  case succ n ih =>
    have ⟨s₁, h₁, hp⟩ := ih fun i hi => step i (by omega)
    have ⟨s₂, h₂, hp⟩ := step n (by omega) s₁ hp
    refine ⟨s₂, ?_, hp⟩
    rw [List.range_succ, List.foldlM_append, h₁]
    show List.foldlM f s₁ [n] = _
    rw [List.foldlM_cons, h₂]
    rfl

end Fallible
