import Mathlib.Data.Nat.Notation
import Mathlib.Logic.Function.Basic
import Mathlib.Order.Lattice

-- Binary heaps in an array of keys, where the places from `n` on are not in use. Sifting moves a hole through the heap
-- until the key for it fits.
namespace HeapOrder

variable {α : Type} [LinearOrder α] {n hole c : ℕ} {k : ℕ → α} {key : α}

def parent (i : ℕ) : ℕ :=
  (i - 1) / 2

structure IsChild (n i p : ℕ) : Prop where
  pos    : 0 < i
  lt     : i < n
  parent : parent i = p

def Ordered (n : ℕ) (k : ℕ → α) : Prop :=
  ∀ i, 0 < i → i < n → k (parent i) ≤ k i

-- Without the hole the heap is in order, and so it is across the hole.
structure Holed (n : ℕ) (k : ℕ → α) (hole : ℕ) : Prop where
  apart  : ∀ i, 0 < i → i < n → i ≠ hole → parent i ≠ hole → k (parent i) ≤ k i
  across : 0 < hole → ∀ i, IsChild n i hole → k (parent hole) ≤ k i

def FitsBelow (k : ℕ → α) (hole : ℕ) (key : α) : Prop :=
  0 < hole → k (parent hole) ≤ key

def FitsAbove (n : ℕ) (k : ℕ → α) (hole : ℕ) (key : α) : Prop :=
  ∀ i, IsChild n i hole → key ≤ k i

theorem parent_lt {i : ℕ} (h : 0 < i) : parent i < i := by
  unfold parent
  omega

theorem IsChild.gt {i p : ℕ} (h : IsChild n i p) : p < i :=
  h.parent ▸ parent_lt h.pos

theorem isChild_iff {i p : ℕ} : IsChild n i p ↔ i < n ∧ (i = p * 2 + 1 ∨ i = p * 2 + 1 + 1) := by
  constructor
  case mp =>
    intro ⟨hpos, hlt, hp⟩
    unfold HeapOrder.parent at hp
    exact ⟨hlt, by omega⟩
  case mpr =>
    intro ⟨hlt, hi⟩
    refine ⟨by omega, hlt, ?_⟩
    unfold HeapOrder.parent
    omega

theorem FitsAbove.congr {m : ℕ} {k' : ℕ → α} (h : FitsAbove n k hole key) (hm : m ≤ n)
    (hk : ∀ i < m, i ≠ hole → k' i = k i) : FitsAbove m k' hole key := by
  intro i hi
  rw [hk i hi.lt hi.gt.ne']
  exact h i ⟨hi.pos, hi.lt.trans_le hm, hi.parent⟩

namespace Ordered

variable (h : Ordered n k)
include h

theorem root_le {i : ℕ} (hi : i < n) : k 0 ≤ k i := by
  induction i using Nat.strongRecOn with
  | ind i ih =>
    by_cases h0 : i = 0
    case pos => rw [h0]
    case neg =>
      have hp := parent_lt (Nat.pos_of_ne_zero h0)
      exact (ih _ hp (hp.trans hi)).trans (h i (Nat.pos_of_ne_zero h0) hi)

theorem holed (hlt : hole < n) : Holed n k hole := by
  refine ⟨fun i h0 hi _ _ => h i h0 hi, fun h0 i hi => ?_⟩
  have := h i hi.pos hi.lt
  rw [hi.parent] at this
  exact (h hole h0 hlt).trans this

theorem fitsBelow (hlt : hole < n) (hkey : k hole ≤ key) : FitsBelow k hole key :=
  fun h0 => (h hole h0 hlt).trans hkey

theorem fitsAbove (hkey : key ≤ k hole) : FitsAbove n k hole key := by
  intro i hi
  have := h i hi.pos hi.lt
  rw [hi.parent] at this
  exact hkey.trans this

end Ordered

namespace Holed

variable (h : Holed n k hole)
include h

-- What the keys are in the hole and outside of the heap does not matter.
theorem congr {m : ℕ} {k' : ℕ → α} (hm : m ≤ n) (hk : ∀ i < m, i ≠ hole → k' i = k i) (hlt : hole < m) :
    Holed m k' hole := by
  refine ⟨fun i h0 hi hih hph => ?_, fun h0 i hi => ?_⟩
  · have hp := parent_lt h0
    rw [hk i hi hih, hk _ (hp.trans hi) hph]
    exact h.apart i h0 (by omega) hih hph
  · have hp := parent_lt h0
    rw [hk i hi.lt hi.gt.ne', hk _ (hp.trans hlt) hp.ne]
    exact h.across h0 i ⟨hi.pos, hi.lt.trans_le hm, hi.parent⟩

theorem fill (hb : FitsBelow k hole key) (ha : FitsAbove n k hole key) :
    Ordered n (Function.update k hole key) := by
  intro i h0 hi
  rw [Function.update_apply, Function.update_apply]
  have hp := parent_lt h0
  split
  case isTrue hph =>
    rw [if_neg (by omega)]
    exact ha i ⟨h0, hi, hph⟩
  case isFalse hph =>
    split
    case isTrue hih =>
      rw [hih] at h0 ⊢
      exact hb h0
    case isFalse hih => exact h.apart i h0 hi hih hph

-- The parent of the hole moves down, and the hole up.
theorem moveUp (h0 : 0 < hole) (hlt : hole < n) (hkey : key < k (parent hole)) :
    Holed n (Function.update k hole (k (parent hole))) (parent hole) ∧
    FitsAbove n (Function.update k hole (k (parent hole))) (parent hole) key := by
  have hp := parent_lt h0
  have hup {i : ℕ} (hi0 : 0 < i) (hi : i < n) (hih : i ≠ hole) (hpi : parent i = parent hole) :
      k (parent hole) ≤ k i := hpi ▸ h.apart i hi0 hi hih (hpi ▸ hp.ne)
  refine ⟨⟨fun i hi0 hi hih hpi => ?_, fun hp0 i hi => ?_⟩, fun i hi => ?_⟩
  · have hih : i ≠ hole := fun heq => hpi (by rw [heq])
    rw [Function.update_of_ne hih, Function.update_apply]
    split
    case isTrue hph => exact h.across h0 i ⟨hi0, hi, hph⟩
    case isFalse hph => exact h.apart i hi0 hi hih hph
  · have hpp := parent_lt hp0
    have hpar := h.apart _ hp0 (hp.trans hlt) hp.ne (by omega)
    rw [Function.update_of_ne (by omega), Function.update_apply]
    split
    case isTrue => exact hpar
    case isFalse hih => exact hpar.trans (hup hi.pos hi.lt hih hi.parent)
  · rw [Function.update_apply]
    split
    case isTrue => exact hkey.le
    case isFalse hih => exact hkey.le.trans (hup hi.pos hi.lt hih hi.parent)

-- The child that comes first moves up, and the hole down.
theorem moveDown (hc : IsChild n c hole) (hfirst : FitsAbove n k hole (k c)) (hkey : k c ≤ key) :
    Holed n (Function.update k hole (k c)) c ∧ FitsBelow (Function.update k hole (k c)) c key := by
  have hgt := hc.gt
  refine ⟨⟨fun i hi0 hi hic hpi => ?_, fun _ i hi => ?_⟩, fun _ => ?_⟩
  · rw [Function.update_apply, Function.update_apply]
    have hp := parent_lt hi0
    split
    case isTrue hph =>
      rw [if_neg (by omega)]
      exact hfirst i ⟨hi0, hi, hph⟩
    case isFalse hph =>
      split
      case isTrue hih =>
        rw [hih] at hi0 ⊢
        exact h.across hi0 c hc
      case isFalse hih => exact h.apart i hi0 hi hih hph
  · have hi' := hi.gt
    rw [hc.parent, Function.update_self, Function.update_of_ne (by omega), ← hi.parent]
    exact h.apart i hi.pos hi.lt (by omega) (by rw [hi.parent]; omega)
  · rw [hc.parent, Function.update_self]
    exact hkey

end Holed

end HeapOrder
