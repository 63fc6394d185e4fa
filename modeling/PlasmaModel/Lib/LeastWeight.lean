import Mathlib.Algebra.Order.Group.Defs
import Mathlib.Analysis.Convex.Function
import Mathlib.Data.Finset.Lattice.Fold
import Mathlib.Data.Fintype.Basic
import Mathlib.Tactic.FieldSimp
import Mathlib.Tactic.Linarith

-- Increasing sequences of positions with a weight for each step, and the lightest ones of them.
namespace LeastWeight

structure Route (n : ℕ) (l : List ℕ) : Prop where
  head       : l.head? = some 0
  last       : l.getLast? = some n
  increasing : l.Pairwise (· < ·)

def steps (l : List ℕ) : List (ℕ × ℕ) :=
  l.zip l.tail

section

variable {α : Type*} [AddCommGroup α] {w : ℕ → ℕ → α} {l : List ℕ} {n i j : ℕ}

def total (w : ℕ → ℕ → α) (l : List ℕ) : α :=
  ((steps l).map fun step => w step.1 step.2).sum

@[simp]
theorem steps_singleton : steps [i] = [] := rfl

@[simp]
theorem steps_cons_cons : steps (i :: j :: l) = (i, j) :: steps (j :: l) := rfl

@[simp]
theorem total_singleton : total w [i] = 0 := rfl

@[simp]
theorem total_cons_cons : total w (i :: j :: l) = w i j + total w (j :: l) := by
  rw [total, steps_cons_cons, List.map_cons, List.sum_cons, total]

theorem steps_concat (h : l.getLast? = some i) : steps (l ++ [j]) = steps l ++ [(i, j)] := by
  induction l with
  | nil => cases h
  | cons a l ih =>
    cases l with
    | nil => cases h; rfl
    | cons b l =>
      have h := ih (by rwa [List.getLast?_cons_cons] at h)
      rw [List.cons_append, List.cons_append, steps_cons_cons, ← List.cons_append, h, steps_cons_cons, List.cons_append]

theorem total_concat (h : l.getLast? = some i) : total w (l ++ [j]) = total w l + w i j := by
  rw [total, steps_concat h, List.map_append, List.sum_append, total, List.map_singleton, List.sum_singleton]

theorem route_zero : Route 0 [0] :=
  ⟨rfl, rfl, List.pairwise_singleton _ _⟩

theorem Route.concat (h : Route i l) (hij : i < j) : Route j (l ++ [j]) where
  head := by
    have hh := h.head
    cases l with
    | nil => cases hh
    | cons a l => exact hh
  last := List.getLast?_concat
  increasing := by
    refine List.pairwise_append.mpr ⟨h.increasing, List.pairwise_singleton _ _, fun a ha b hb => ?_⟩
    rw [List.mem_singleton] at hb
    have hl := h.last
    rw [List.getLast?_eq_some_iff] at hl
    have ⟨l', hl⟩ := hl
    subst hl hb
    rcases List.mem_append.mp ha with ha | ha
    · exact ((List.pairwise_append.mp h.increasing).2.2 a ha i (by simp)).trans hij
    · exact List.mem_singleton.mp ha ▸ hij

theorem Route.steps_lt (h : Route n l) : ∀ step ∈ steps l, step.1 < step.2 ∧ step.2 ≤ n := by
  intro step hs
  have ⟨⟨i, hi⟩, heq⟩ := List.mem_iff_get.mp hs
  have hlen : i + 1 < l.length := by
    simp only [steps, List.length_zip, List.length_tail] at hi
    omega
  have hget : step = (l[i], l[i + 1]) := by
    rw [← heq]
    simp [steps]
  rw [hget]
  refine ⟨List.pairwise_iff_getElem.mp h.increasing i (i + 1) (by omega) hlen (by omega), ?_⟩
  have hl := h.last
  rw [List.getLast?_eq_getElem?, List.getElem?_eq_some_iff] at hl
  have ⟨hlast, hl⟩ := hl
  rcases Nat.lt_or_eq_of_le (Nat.le_sub_one_of_lt hlen) with hlt | heq
  · exact hl ▸ (List.pairwise_iff_getElem.mp h.increasing (i + 1) (l.length - 1) hlen hlast hlt).le
  · simp only [heq, hl, le_refl]

end

section

variable {α : Type*} [AddCommGroup α] [LinearOrder α] [IsOrderedAddMonoid α] {w f : ℕ → ℕ → α} {l : List ℕ}
variable {n i j : ℕ} {allowed : ℕ → ℕ → Prop}

-- The lightest path, and the dynamic program for its weight.
structure Lightest (w : ℕ → ℕ → α) (n : ℕ) (l : List ℕ) : Prop where
  path : Route n l
  le   : ∀ l', Route n l' → total w l ≤ total w l'

def least (w : ℕ → ℕ → α) : ℕ → α
  | 0 => 0
  | n + 1 => Finset.univ.inf' Finset.univ_nonempty fun i : Fin (n + 1) => least w i + w i (n + 1)
termination_by n => n
decreasing_by exact i.isLt

-- The equations of such a program, if only some of the steps are allowed.
structure Solves (allowed : ℕ → ℕ → Prop) (w : ℕ → ℕ → α) (n : ℕ) (f : ℕ → α) : Prop where
  zero     : f 0 = 0
  le       : ∀ i j, i < j → j ≤ n → allowed i j → f j ≤ f i + w i j
  attained : ∀ j, 0 < j → j ≤ n → ∃ i < j, allowed i j ∧ f j = f i + w i j

theorem Solves.le_total {f : ℕ → α} (h : Solves allowed w n f) (hp : Route n l)
    (ha : ∀ step ∈ steps l, allowed step.1 step.2) : f n ≤ total w l := by
  have hle : ∀ (l : List ℕ) (i j : ℕ), (i :: l).getLast? = some j →
      (∀ step ∈ steps (i :: l), f step.2 ≤ f step.1 + w step.1 step.2) → f j ≤ f i + total w (i :: l) := by
    intro l
    induction l with
    | nil =>
      intro i j hl _
      have heq : i = j := Option.some.inj hl
      rw [total_singleton, add_zero, heq]
    | cons k l ih =>
      intro i j hl hs
      rw [steps_cons_cons] at hs
      have hik : f k ≤ f i + w i k := hs (i, k) (.head _)
      have hkj := ih k j (by rwa [List.getLast?_cons_cons] at hl) fun step hm => hs step (.tail _ hm)
      calc f j ≤ f k + total w (k :: l) := hkj
        _ ≤ f i + w i k + total w (k :: l) := by gcongr
        _ = f i + total w (i :: k :: l) := by rw [total_cons_cons, add_assoc]
  have hs : ∀ step ∈ steps l, f step.2 ≤ f step.1 + w step.1 step.2 := fun step hm =>
    h.le step.1 step.2 (hp.steps_lt step hm).1 (hp.steps_lt step hm).2 (ha step hm)
  have hh := hp.head
  cases l with
  | nil => cases hh
  | cons a l =>
    cases hh
    have htotal := hle l 0 n hp.last hs
    rwa [h.zero, zero_add] at htotal

omit [IsOrderedAddMonoid α] in
theorem Solves.exists_path {f : ℕ → α} (h : Solves allowed w n f) (hj : j ≤ n) :
    ∃ l, Route j l ∧ (∀ step ∈ steps l, allowed step.1 step.2) ∧ total w l = f j := by
  induction j using Nat.strong_induction_on with
  | _ j ih =>
    rcases Nat.eq_zero_or_pos j with rfl | hpos
    · exact ⟨[0], route_zero, by simp, by rw [total_singleton, h.zero]⟩
    · have ⟨i, hij, hallowed, hf⟩ := h.attained j hpos hj
      have ⟨l, hp, ha, ht⟩ := ih i hij (by omega)
      refine ⟨l ++ [j], hp.concat hij, ?_, by rw [total_concat hp.last, ht, hf]⟩
      intro step hm
      rw [steps_concat hp.last, List.mem_append, List.mem_singleton] at hm
      rcases hm with hm | rfl
      · exact ha step hm
      · exact hallowed

omit [IsOrderedAddMonoid α] in
theorem solves_least (w : ℕ → ℕ → α) (n : ℕ) : Solves (fun _ _ => True) w n (least w) where
  zero := by rw [least]
  le i j hij _ _ := by
    cases j with
    | zero => omega
    | succ j =>
      rw [least]
      exact Finset.inf'_le _ (Finset.mem_univ (⟨i, hij⟩ : Fin (j + 1)))
  attained j hpos _ := by
    cases j with
    | zero => omega
    | succ j =>
      have ⟨i, _, hi⟩ := Finset.exists_mem_eq_inf' Finset.univ_nonempty
        fun i : Fin (j + 1) => least w i + w i (j + 1)
      exact ⟨i, i.isLt, trivial, by rw [least, hi]⟩

theorem lightest_iff (hp : Route n l) : Lightest w n l ↔ total w l = least w n := by
  have hle : ∀ {l}, Route n l → least w n ≤ total w l := fun hp =>
    (solves_least w n).le_total hp fun _ _ => trivial
  constructor
  case mp =>
    intro h
    have ⟨l', hp', _, ht⟩ := (solves_least w n).exists_path (le_refl n)
    exact le_antisymm (ht ▸ h.le l' hp') (hle hp)
  case mpr => exact fun h => ⟨hp, fun l' hp' => h ▸ hle hp'⟩

end

section

variable {α : Type*} [LinearOrder α] {g : ℕ → ℕ → α} {n m : ℕ} {d d' : List ℕ}

-- Of three starts in a row, the middle one is the best one somewhere, and the last of all is the best one in the end.
structure Stairs (g : ℕ → ℕ → α) (n : ℕ) (d : List ℕ) : Prop where
  pair   : ∀ i j, [i, j] <:+: d → g j n < g i n
  triple : ∀ i j m, [i, j, m] <:+: d → ∃ k, m < k ∧ k ≤ n ∧ g j k < g i k ∧ g j k < g m k

theorem Stairs.mono (h : Stairs g n d) (hd : d' <:+: d) : Stairs g n d' where
  pair i j hij := h.pair i j (hij.trans hd)
  triple i j m hijm := h.triple i j m (hijm.trans hd)

theorem stairs_singleton : Stairs g n [m] where
  pair _ _ h := absurd h.length_le (by simp)
  triple _ _ _ h := absurd h.length_le (by simp)

theorem Stairs.concat (h : Stairs g n d) (hpair : ∀ i, d.getLast? = some i → g m n < g i n)
    (htriple : ∀ i j, [i, j] <:+ d → ∃ k, m < k ∧ k ≤ n ∧ g j k < g i k ∧ g j k < g m k) :
    Stairs g n (d ++ [m]) where
  pair i j hij := by
    rcases List.infix_concat_iff.mp hij with hs | hi
    · rcases List.suffix_concat_iff.mp hs with hn | ⟨t, ht, hs⟩
      · cases hn
      · have heq : [i] ++ [j] = t ++ [m] := ht
        have ⟨hit, hjm⟩ := List.append_inj' heq rfl
        cases hjm
        subst hit
        exact hpair i (by have ⟨p, hp⟩ := hs; rw [← hp]; exact List.getLast?_concat)
    · exact h.pair i j hi
  triple i j k hijk := by
    rcases List.infix_concat_iff.mp hijk with hs | hi
    · rcases List.suffix_concat_iff.mp hs with hn | ⟨t, ht, hs⟩
      · cases hn
      · have heq : [i, j] ++ [k] = t ++ [m] := ht
        have ⟨hit, hkm⟩ := List.append_inj' heq rfl
        cases hkm
        subst hit
        exact htriple i j hs
    · exact h.triple i j k hi

-- The starts before `m` that are left of all of them, for the positions from `m` to `n`.
structure Envelope (g : ℕ → ℕ → α) (n m : ℕ) (d : List ℕ) : Prop where
  sorted : d.Pairwise (· < ·)
  lt     : ∀ i ∈ d, i < m
  stairs : Stairs g n d
  covers : ∀ i < m, ∀ k, m ≤ k → k ≤ n → ∃ c ∈ d, g c k ≤ g i k

end

section

variable {α : Type*} [AddCommGroup α] [LinearOrder α] [IsOrderedAddMonoid α] {w g : ℕ → ℕ → α} {f : ℕ → α}
variable {n i j k l m : ℕ} {d : List ℕ}

-- Two steps that cross weigh no more than the one inside and the one around them.
def Concave (w : ℕ → ℕ → α) (n : ℕ) : Prop :=
  ∀ i j k l, i ≤ j → j < k → k ≤ l → l ≤ n → w i k + w j l ≤ w i l + w j k

theorem Concave.add_left (h : Concave w n) (f : ℕ → α) : Concave (fun i j => f i + w i j) n := by
  intro i j k l hij hjk hkl hln
  dsimp only
  rw [add_add_add_comm (f i) (w i k), add_add_add_comm (f i) (w i l)]
  exact add_le_add_right (h i j k l hij hjk hkl hln) _

-- A later start that is as good as an earlier one stays so.
theorem Concave.le_of_le (h : Concave g n) (hij : i ≤ j) (hjk : j < k) (hkl : k ≤ l) (hln : l ≤ n)
    (hle : g j k ≤ g i k) : g j l ≤ g i l := by
  have hc := h i j k l hij hjk hkl hln
  refine le_of_add_le_add_left (hc.trans ?_)
  rw [add_comm (g i l)]
  exact add_le_add_left hle _

theorem Concave.lt_of_lt (h : Concave g n) (hij : i ≤ j) (hjk : j < k) (hkl : k ≤ l) (hln : l ≤ n)
    (hlt : g j k < g i k) : g j l < g i l := by
  have hc := h i j k l hij hjk hkl hln
  refine lt_of_add_lt_add_left (hc.trans_lt ?_)
  rw [add_comm (g i l)]
  exact add_lt_add_left hlt _

-- If the first start is better than the second one, then it is the best one.
theorem Stairs.lt_of_lt (hg : Concave g n) (h : Stairs g n (i :: j :: d)) (hd : (i :: j :: d).Pairwise (· < ·))
    (hk : ∀ m ∈ j :: d, m < k) (hkn : k ≤ n) (hlt : g i k < g j k) : ∀ m ∈ j :: d, g i k < g m k := by
  induction d generalizing i j with
  | nil => simpa using hlt
  | cons m d ih =>
    have ⟨k', hmk', hkn', hji, hjm⟩ := h.triple i j m ⟨[], d, rfl⟩
    have hij : i < j := List.rel_of_pairwise_cons hd (.head _)
    have hjm' : j < m := List.rel_of_pairwise_cons hd.of_cons (.head _)
    have hkk' : k < k' := by
      by_contra hle
      exact (hg.lt_of_lt hij.le (hjm'.trans hmk') (not_lt.mp hle) hkn hji).asymm hlt
    have hlt' : g j k < g m k := by
      by_contra hle
      exact (hg.le_of_le hjm'.le (hk m (by simp)) hkk'.le hkn' (not_lt.mp hle)).not_gt hjm
    have hrest := ih (h.mono ⟨[i], [], by simp⟩) hd.of_cons (fun m hm => hk m (.tail _ hm)) hlt'
    intro m' hm'
    rcases List.mem_cons.mp hm' with rfl | hm'
    · exact hlt
    · exact hlt.trans (hrest m' hm')

end

section

variable {𝕜 : Type*} [Field 𝕜] [LinearOrder 𝕜] [IsStrictOrderedRing 𝕜] {F : 𝕜 → 𝕜}

theorem convexOn_four (hF : ConvexOn 𝕜 Set.univ F) {u x y v : 𝕜} (hux : u ≤ x) (hxv : x ≤ v) (hsum : x + y = u + v) :
    F x + F y ≤ F u + F v := by
  rcases (hux.trans hxv).eq_or_lt with heq | huv
  · have hx : x = u := le_antisymm (heq ▸ hxv) hux
    have hy : y = v := by linarith
    rw [hx, hy]
  · have hpos : 0 < v - u := sub_pos.mpr huv
    let t := (v - x) / (v - u)
    have ht : 0 ≤ t := div_nonneg (sub_nonneg.mpr hxv) hpos.le
    have ht' : 0 ≤ 1 - t := by
      rw [sub_nonneg, div_le_one hpos]
      linarith
    have htv : t * (v - u) = v - x := div_mul_cancel₀ _ hpos.ne'
    have hx : t • u + (1 - t) • v = x := by
      simp only [smul_eq_mul]
      linarith
    have hy : (1 - t) • u + t • v = y := by
      simp only [smul_eq_mul]
      linarith
    have hFx := hF.2 (Set.mem_univ u) (Set.mem_univ v) ht ht' (by ring)
    have hFy := hF.2 (Set.mem_univ u) (Set.mem_univ v) ht' ht (by ring)
    rw [hx] at hFx
    rw [hy] at hFy
    simp only [smul_eq_mul] at hFx hFy
    linarith

-- The weight of a step is a convex function of its length.
theorem concave_of_convexOn (hF : ConvexOn 𝕜 Set.univ F) {c : ℕ → 𝕜} (n : ℕ)
    (hc : ∀ i j, i ≤ j → j ≤ n → c i ≤ c j) : Concave (fun i j => F (c j - c i)) n := by
  intro i j k l hij hjk hkl hln
  have hcij := hc i j hij (hjk.le.trans (hkl.trans hln))
  have hckl := hc k l hkl hln
  have h := convexOn_four hF (u := c k - c j) (x := c k - c i) (y := c l - c j) (v := c l - c i) (by linarith)
    (by linarith) (by ring)
  linarith

end
end LeastWeight
