import Mathlib.Data.List.Pairwise
import Mathlib.Order.Lattice
import Mathlib.Order.MinMax

-- Lists of half-open intervals over a linear order. The elements are of any type, and `lo` and `hi` are their bounds.
namespace IntervalList

variable {α β γ : Type _} [LinearOrder α] (lo hi : β → α)

def Mem (b : β) (x : α) : Prop :=
  lo b ≤ x ∧ x < hi b

def Covers (l : List β) (x : α) : Prop :=
  ∃ b ∈ l, Mem lo hi b x

-- The intervals are listed from left to right, and there is a gap between any two of them.
structure Separated (l : List β) : Prop where
  nonempty : ∀ b ∈ l, lo b < hi b
  gap      : l.Pairwise (hi · < lo ·)

instance [DecidableLT α] (l : List β) : Decidable (Separated lo hi l) :=
  decidable_of_iff ((∀ b ∈ l, lo b < hi b) ∧ l.Pairwise (hi · < lo ·))
    ⟨fun ⟨n, g⟩ => ⟨n, g⟩, fun ⟨n, g⟩ => ⟨n, g⟩⟩

variable {lo hi} {b : β} {l l₁ l₂ : List β} {x : α}

@[simp]
theorem covers_nil : Covers lo hi [] x ↔ False := by
  simp [Covers]

@[simp]
theorem covers_cons : Covers lo hi (b :: l) x ↔ (lo b ≤ x ∧ x < hi b) ∨ Covers lo hi l x := by
  simp [Covers, Mem]

@[simp]
theorem covers_append : Covers lo hi (l₁ ++ l₂) x ↔ Covers lo hi l₁ x ∨ Covers lo hi l₂ x := by
  simp [Covers, or_and_right, exists_or]

@[simp]
theorem covers_reverse : Covers lo hi l.reverse x ↔ Covers lo hi l x := by
  simp [Covers]

theorem covers_map {lo' hi' : γ → α} {f : β → γ}
    (h₁ : ∀ b ∈ l, lo' (f b) = lo b) (h₂ : ∀ b ∈ l, hi' (f b) = hi b) :
    Covers lo' hi' (l.map f) x ↔ Covers lo hi l x := by
  constructor
  case mp =>
    rintro ⟨_, hm, hx⟩
    obtain ⟨b, hb, rfl⟩ := List.mem_map.mp hm
    exact ⟨b, hb, h₁ b hb ▸ hx.1, h₂ b hb ▸ hx.2⟩
  case mpr =>
    rintro ⟨b, hb, hx⟩
    exact ⟨f b, List.mem_map_of_mem hb, (h₁ b hb).symm ▸ hx.1, (h₂ b hb).symm ▸ hx.2⟩

namespace Separated

theorem nil : Separated lo hi [] :=
  ⟨by simp, .nil⟩

theorem cons_iff :
    Separated lo hi (b :: l) ↔ (lo b < hi b) ∧ (∀ c ∈ l, hi b < lo c) ∧ Separated lo hi l where
  mp  := fun ⟨n, g⟩ =>
    ⟨n b (by simp), (List.pairwise_cons.mp g).1, fun c h => n c (by simp [h]), g.tail⟩
  mpr := fun ⟨hb, hl, n, g⟩ => ⟨by simpa [hb] using n, List.pairwise_cons.mpr ⟨hl, g⟩⟩

theorem head (s : Separated lo hi (b :: l)) : lo b < hi b :=
  (cons_iff.mp s).1

theorem head_gap (s : Separated lo hi (b :: l)) : ∀ c ∈ l, hi b < lo c :=
  (cons_iff.mp s).2.1

theorem tail (s : Separated lo hi (b :: l)) : Separated lo hi l :=
  (cons_iff.mp s).2.2

theorem append_iff :
    Separated lo hi (l₁ ++ l₂) ↔
      Separated lo hi l₁ ∧ Separated lo hi l₂ ∧ ∀ a ∈ l₁, ∀ b ∈ l₂, hi a < lo b where
  mp := fun ⟨n, g⟩ =>
    have ⟨g₁, g₂, g₃⟩ := List.pairwise_append.mp g
    ⟨⟨fun b h => n b (by simp [h]), g₁⟩, ⟨fun b h => n b (by simp [h]), g₂⟩, g₃⟩
  mpr := fun ⟨⟨n₁, g₁⟩, ⟨n₂, g₂⟩, g₃⟩ =>
    ⟨fun b h => (List.mem_append.mp h).elim (n₁ b) (n₂ b), List.pairwise_append.mpr ⟨g₁, g₂, g₃⟩⟩

-- Algorithms that emit intervals from left to right hold them in reverse order.
theorem reverse_cons_iff :
    Separated lo hi (b :: l).reverse ↔
      (lo b < hi b) ∧ (∀ a ∈ l, hi a < lo b) ∧ Separated lo hi l.reverse := by
  simp only [List.reverse_cons, append_iff, cons_iff, nil, List.mem_reverse, List.mem_singleton,
    List.not_mem_nil, forall_eq, false_imp_iff, implies_true, and_true]
  exact ⟨fun ⟨h₁, h₂, h₃⟩ => ⟨h₂, h₃, h₁⟩, fun ⟨h₁, h₂, h₃⟩ => ⟨h₃, h₁, h₂⟩⟩

theorem map {lo' hi' : γ → α} {f : β → γ} (s : Separated lo hi l)
    (h₁ : ∀ b, lo' (f b) = lo b) (h₂ : ∀ b, hi' (f b) = hi b) : Separated lo' hi' (l.map f) where
  nonempty := by
    simp only [List.mem_map, forall_exists_index, and_imp, forall_apply_eq_imp_iff₂, h₁, h₂]
    exact s.nonempty
  gap := List.pairwise_map.mpr <| s.gap.imp (by simp [h₁, h₂])

-- Nothing to the left of the first interval is covered.
theorem le_of_covers (s : Separated lo hi (b :: l)) (h : Covers lo hi (b :: l) x) : lo b ≤ x := by
  cases covers_cons.mp h
  case inl h => exact h.1
  case inr h =>
    have ⟨c, hc, hx⟩ := h
    exact (s.head.trans (s.head_gap c hc)).le.trans hx.1

theorem not_covers_of_lt (s : Separated lo hi (b :: l)) (h : x < lo b) :
    ¬Covers lo hi (b :: l) x :=
  fun hc => absurd (s.le_of_covers hc) (not_le_of_gt h)

theorem hi_lt_of_covers_tail (s : Separated lo hi (b :: l)) (h : Covers lo hi l x) : hi b < x :=
  have ⟨c, hc, hx⟩ := h
  (s.head_gap c hc).trans_le hx.1

-- The right end of an interval is never covered: the next interval starts strictly behind it.
theorem not_covers_hi (s : Separated lo hi (b :: l)) : ¬Covers lo hi (b :: l) (hi b) := by
  rw [covers_cons]
  rintro (h | h)
  · exact lt_irrefl _ h.2
  · exact lt_irrefl _ (s.hi_lt_of_covers_tail h)

-- Before the right end of the first interval, only that interval matters.
theorem covers_of_lt_hi (s : Separated lo hi (b :: l)) (h : x < hi b) :
    Covers lo hi (b :: l) x ↔ lo b ≤ x := by
  rw [covers_cons, and_iff_left h, or_iff_left]
  exact fun hc => lt_asymm h (s.hi_lt_of_covers_tail hc)

-- Behind the right end of the first interval, that interval does not matter.
theorem covers_of_hi_le (h : hi b ≤ x) : Covers lo hi (b :: l) x ↔ Covers lo hi l x := by
  rw [covers_cons, or_iff_right]
  exact fun hc => not_lt_of_ge h hc.2

-- An interval list in this form is determined by what it covers.
theorem covers_tail_iff (s : Separated lo hi (b :: l)) :
    Covers lo hi l x ↔ hi b < x ∧ Covers lo hi (b :: l) x where
  mp h := ⟨s.hi_lt_of_covers_tail h, covers_cons.mpr (.inr h)⟩
  mpr h := (covers_of_hi_le h.1.le).mp h.2

theorem covers_lo (s : Separated lo hi (b :: l)) : Covers lo hi (b :: l) (lo b) :=
  covers_cons.mpr (.inl ⟨le_rfl, s.head⟩)

theorem hi_le_of_covers {b' : β} {l' : List β} (s : Separated lo hi (b :: l)) (s' : Separated lo hi (b' :: l'))
    (hlo : lo b = lo b') (h : ∀ x, Covers lo hi (b' :: l') x → Covers lo hi (b :: l) x) : hi b' ≤ hi b := by
  by_contra hlt
  -- Otherwise the right end of `b` is covered on one side only.
  refine s.not_covers_hi (h _ (covers_cons.mpr (.inl ⟨?_, not_le.mp hlt⟩)))
  exact hlo ▸ s.head.le

theorem eq_of_covers {l' : List β} (s : Separated lo hi l) (s' : Separated lo hi l')
    (h : ∀ x, Covers lo hi l x ↔ Covers lo hi l' x) :
    l.map (fun b => (lo b, hi b)) = l'.map fun b => (lo b, hi b) := by
  induction l generalizing l'
  case nil =>
    cases l'
    case nil => rfl
    case cons b' l' => exact absurd ((h _).mpr s'.covers_lo) (by simp)
  case cons b l ih =>
    cases l'
    case nil => exact absurd ((h _).mp s.covers_lo) (by simp)
    case cons b' l' =>
      have hlo : lo b = lo b' :=
        le_antisymm (s.le_of_covers ((h _).mpr s'.covers_lo)) (s'.le_of_covers ((h _).mp s.covers_lo))
      have hhi : hi b = hi b' :=
        le_antisymm (s'.hi_le_of_covers s hlo.symm fun x => (h x).mp) (s.hi_le_of_covers s' hlo fun x => (h x).mpr)
      have htail : ∀ x, Covers lo hi l x ↔ Covers lo hi l' x := fun x => by
        rw [s.covers_tail_iff, s'.covers_tail_iff, hhi, h x]
      rw [List.map_cons, List.map_cons, hlo, hhi, ih s.tail s'.tail htail]

end Separated
end IntervalList
