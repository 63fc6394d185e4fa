import Mathlib.Data.List.Nodup
import Mathlib.Data.List.Perm.Basic
import Mathlib.Data.List.Range

-- Lists that are sorted into places, of which each holds the last element put there, with the rest behind.
namespace Buckets

variable {α : Type} {key : α → Option Nat} {n : Nat} {l : List α} {a b : α} {i : Nat}

def lastOf (key : α → Option Nat) (l : List α) (i : Nat) : Option α :=
  (l.filter (key · = some i)).getLast?

def arrange (n : Nat) (key : α → Option Nat) (l : List α) : List α :=
  (List.range n).filterMap (lastOf key l) ++ l.filter (key · = none)

theorem mem_of_lastOf (h : lastOf key l i = some a) : a ∈ l ∧ key a = some i := by
  have hm := List.mem_filter.mp (List.mem_of_getLast? h)
  exact ⟨hm.1, of_decide_eq_true hm.2⟩

theorem lastOf_append : lastOf key (l ++ [a]) i = if key a = some i then some a else lastOf key l i := by
  rw [lastOf, List.filter_append]
  split
  case isTrue h => simp [h]
  case isFalse h => simp [h, lastOf]

theorem mem_arrange : a ∈ arrange n key l ↔ (∃ i < n, lastOf key l i = some a) ∨ a ∈ l ∧ key a = none := by
  rw [arrange, List.mem_append, List.mem_filterMap, List.mem_filter, decide_eq_true_eq]
  simp only [List.mem_range]

theorem arrange_subset : arrange n key l ⊆ l := by
  intro a ha
  cases mem_arrange.mp ha
  case inl h =>
    have ⟨_, _, hl⟩ := h
    exact (mem_of_lastOf hl).1
  case inr h => exact h.1

theorem filterMap_lastOf (is : List Nat) :
    (is.filterMap (lastOf key l)).filterMap key = is.filter fun i => (lastOf key l i).isSome := by
  induction is
  case nil => rfl
  case cons i is ih =>
    cases hl : lastOf key l i
    case none => simp [hl, ih]
    case some a => simp [hl, ih, (mem_of_lastOf hl).2]

theorem filterMap_filter_none : (l.filter (key · = none)).filterMap key = [] := by
  rw [List.filterMap_eq_nil_iff]
  exact fun a ha => of_decide_eq_true (List.mem_filter.mp ha).2

theorem filterMap_arrange : (arrange n key l).filterMap key = (List.range n).filter fun i => (lastOf key l i).isSome := by
  rw [arrange, List.filterMap_append, filterMap_lastOf, filterMap_filter_none, List.append_nil]

theorem arrange_sorted : ((arrange n key l).filterMap key).Pairwise (· < ·) := by
  rw [filterMap_arrange]
  exact List.pairwise_lt_range.sublist List.filter_sublist

theorem filter_arrange : (arrange n key l).filter (key · = none) = l.filter (key · = none) := by
  have h : ((List.range n).filterMap (lastOf key l)).filter (key · = none) = [] := by
    rw [List.filter_eq_nil_iff]
    intro a ha
    have ⟨i, _, hl⟩ := List.mem_filterMap.mp ha
    simp [(mem_of_lastOf hl).2]
  rw [arrange, List.filter_append, h, List.nil_append, List.filter_filter]
  simp

theorem arrange_nodup (h : l.Nodup) : (arrange n key l).Nodup := by
  rw [arrange, List.nodup_append]
  refine ⟨?_, h.filter _, fun a ha b hb heq => ?_⟩
  · apply List.Nodup.filterMap _ List.nodup_range
    intro i j a hi hj
    exact Option.some.inj ((mem_of_lastOf hi).2.symm.trans (mem_of_lastOf hj).2)
  · have ⟨i, _, hl⟩ := List.mem_filterMap.mp ha
    have hnone := of_decide_eq_true (List.mem_filter.mp hb).2
    exact Option.some_ne_none i ((mem_of_lastOf hl).2.symm.trans (heq ▸ hnone))

-- Nothing is lost if and only if no two elements go to the same place.
theorem arrange_perm_iff (h : l.Nodup) (hkey : ∀ a ∈ l, ∀ i, key a = some i → i < n) :
    (arrange n key l).Perm l ↔ ∀ a ∈ l, ∀ b ∈ l, ∀ i, key a = some i → key b = some i → a = b := by
  constructor
  case mp =>
    intro hp a ha b hb i hka hkb
    have hlast : ∀ c ∈ l, key c = some i → lastOf key l i = some c := by
      intro c hc hkc
      cases mem_arrange.mp (hp.symm.subset hc)
      case inl hm =>
        have ⟨j, _, hl⟩ := hm
        exact Option.some.inj ((mem_of_lastOf hl).2.symm.trans hkc) ▸ hl
      case inr hm => exact absurd (hm.2.symm.trans hkc) (Option.some_ne_none i).symm
    exact Option.some.inj ((hlast a ha hka).symm.trans (hlast b hb hkb))
  case mpr =>
    intro hinj
    rw [List.perm_ext_iff_of_nodup (arrange_nodup h) h]
    refine fun a => ⟨fun ha => arrange_subset ha, fun ha => mem_arrange.mpr ?_⟩
    cases hk : key a
    case none => exact .inr ⟨ha, rfl⟩
    case some i =>
      refine .inl ⟨i, hkey a ha i hk, ?_⟩
      have hm : a ∈ l.filter (key · = some i) := List.mem_filter.mpr ⟨ha, decide_eq_true hk⟩
      have ⟨b, hb⟩ : ∃ b, lastOf key l i = some b := Option.ne_none_iff_exists'.mp fun hnone =>
        List.ne_nil_of_mem hm (List.getLast?_eq_none_iff.mp hnone)
      have ⟨hbl, hkb⟩ := mem_of_lastOf hb
      exact hinj a ha b hbl i hk hkb ▸ hb

end Buckets
