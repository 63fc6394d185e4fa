import Mathlib.Data.List.Flatten
import Mathlib.Data.List.Nodup
import Mathlib.Data.List.Pairwise
import Mathlib.Data.List.Perm.Basic

namespace List

variable {α : Type} {l b : List α} {a : α} {i : Nat}

theorem exists_append_of_getElem? (h : l[i]? = some a) : ∃ l₁ l₂, l = l₁ ++ a :: l₂ ∧ l₁.length = i := by
  have ⟨hi, ha⟩ := getElem?_eq_some_iff.mp h
  refine ⟨l.take i, l.drop (i + 1), ?_, by simp; omega⟩
  rw [← ha, getElem_cons_drop, take_append_drop]

theorem findIdx?_congr {p q : α → Bool} (h : ∀ a ∈ l, p a = q a) : l.findIdx? p = l.findIdx? q := by
  induction l
  case nil => rfl
  case cons a l ih =>
    rw [findIdx?_cons, findIdx?_cons, h a mem_cons_self, ih fun a ha => h a (mem_cons_of_mem _ ha)]

theorem modify_length_append (f : α → α) : (l ++ a :: b).modify l.length f = l ++ f a :: b := by
  induction l <;> simp_all

theorem modify_append_cons (f : α → α) : (l ++ a :: b).modify (i + 1 + l.length) f = l ++ a :: b.modify i f := by
  induction l
  case nil => rfl
  case cons a' l ih => rw [cons_append, length_cons, ← Nat.add_assoc, modify_succ_cons, ih, cons_append]

theorem eraseIdx_length_append : (l ++ a :: b).eraseIdx l.length = l ++ b := by
  simp [eraseIdx_append_of_length_le]

theorem flatten_map_singleton (l : List α) : (l.map ([·])).flatten = l := by
  simp [← flatMap_def]

theorem set_length_append {a' : α} : (l ++ a :: b).set l.length a' = l ++ a' :: b := by
  simp

-- The rows of a list into which others were inserted, and of one from which some were removed.
theorem range_insert {n start count : Nat} (hs : start ≤ n) :
    (range' start count ++ (range n).map fun row => if start ≤ row then row + count else row).Perm
      (range (n + count)) := by
  have hinj : (range n).Pairwise fun a b =>
      (if start ≤ a then a + count else a) ≠ if start ≤ b then b + count else b :=
    nodup_range.imp fun hne => by grind
  have hn : (range' start count ++ (range n).map fun row => if start ≤ row then row + count else row).Nodup :=
    Nodup.append nodup_range' (pairwise_map.mpr hinj) fun a ha hb => by
      simp only [mem_range'_1, mem_map, mem_range] at ha hb
      grind
  refine (perm_ext_iff_of_nodup hn nodup_range).mpr fun a => ?_
  simp only [mem_append, mem_range'_1, mem_map, mem_range]
  refine ⟨fun h => by grind, fun h => ?_⟩
  if h₁ : a < start then
    exact .inr ⟨a, by omega, by grind⟩
  else if h₂ : a < start + count then
    exact .inl ⟨by omega, h₂⟩
  else
    exact .inr ⟨a - count, by omega, by grind⟩

theorem range_remove {n start count : Nat} (hs : start + count ≤ n) :
    (((range n).diff (range' start count)).map fun row =>
      if start + 1 ≤ row then row - count else row).Perm (range (n - count)) := by
  have hm {a : Nat} : a ∈ (range n).diff (range' start count) ↔ a < n ∧ ¬(start ≤ a ∧ a < start + count) := by
    rw [nodup_range.mem_sdiff_iff, mem_range, mem_range'_1]
  have hinj : ((range n).diff (range' start count)).Pairwise fun a b =>
      (if start + 1 ≤ a then a - count else a) ≠ if start + 1 ≤ b then b - count else b :=
    (nodup_range.diff).imp_of_mem fun ha hb hne => by
      have := hm.mp ha
      have := hm.mp hb
      grind
  refine (perm_ext_iff_of_nodup (pairwise_map.mpr hinj) nodup_range).mpr fun a => ?_
  simp only [mem_map, hm, mem_range]
  refine ⟨fun h => by grind, fun h => ?_⟩
  if h₁ : a < start then
    exact ⟨a, by omega, by grind⟩
  else
    exact ⟨a + count, by omega, by grind⟩

theorem disjoint_inserted (start count n : Nat) :
    (range' start count).Disjoint ((range n).map fun row => if start ≤ row then row + count else row) := by
  intro a ha hb
  have ⟨row, _, he⟩ := mem_map.mp hb
  have := mem_range'_1.mp ha
  split at he <;> omega

theorem getElem?_inserted {start : Nat} (hs : start ≤ l.length) (row : Nat) :
    (l.take start ++ b ++ l.drop start)[if start ≤ row then row + b.length else row]? = l[row]? := by
  have hl : (l.take start).length = start := length_take_of_le hs
  split
  case isTrue h =>
    rw [getElem?_append_right (by rw [length_append]; omega), getElem?_drop, length_append, hl]
    congr 1
    omega
  case isFalse h =>
    rw [append_assoc, getElem?_append_left (by omega), getElem?_take_of_lt (by omega)]

theorem getElem?_removed {start count : Nat} (hs : start + count ≤ l.length) {row : Nat}
    (hr : row < start ∨ start + count ≤ row) :
    (l.take start ++ l.drop (start + count))[if start + 1 ≤ row then row - count else row]? = l[row]? := by
  have hl : (l.take start).length = start := length_take_of_le (by omega)
  by_cases hlt : row < start
  case pos => rw [if_neg (by omega), getElem?_append_left (by omega), getElem?_take_of_lt hlt]
  case neg =>
    have he : (if start + 1 ≤ row then row - count else row) = row - count := by
      split <;> omega
    rw [he, getElem?_append_right (by omega), getElem?_drop, hl]
    congr 1
    omega

end List

-- Lists that hold the elements of `l` between them, each in one place, and of which none is empty.
structure Partitions {α : Type} (l : List α) (m : List (List α)) : Prop where
  perm     : m.flatten.Perm l
  nonempty : ∀ rows ∈ m, rows ≠ []

namespace Partitions

open List

variable {α β : Type} {l l' rows : List α} {m m' : List (List α)} {a : α} {i j : Nat}

theorem of_perm (h : Partitions l m) (hl : l.Perm l') : Partitions l' m :=
  ⟨h.perm.trans hl, h.nonempty⟩

theorem replace (h : Partitions l m) (hm : m'.flatten.Perm m.flatten) (hn : ∀ rows ∈ m', rows ≠ []) :
    Partitions l m' :=
  ⟨hm.trans h.perm, hn⟩

theorem mem_iff (h : Partitions l m) : a ∈ l ↔ ∃ rows ∈ m, a ∈ rows := by
  rw [← h.perm.mem_iff, mem_flatten]

theorem nodup (h : Partitions l m) (hl : l.Nodup) (hr : rows ∈ m) : rows.Nodup :=
  (nodup_flatten.mp (h.perm.nodup_iff.mpr hl)).1 rows hr

-- An element is in one list only.
theorem unique {rows' : List α} (h : Partitions l m) (hl : l.Nodup) (hr : rows ∈ m) (hr' : rows' ∈ m) (ha : a ∈ rows)
    (ha' : a ∈ rows') : rows = rows' := by
  have : Std.Symm (Disjoint (α := α)) := ⟨fun _ _ hd _ ha hb => hd hb ha⟩
  by_contra hne
  exact (nodup_flatten.mp (h.perm.nodup_iff.mpr hl)).2.forall hr hr' hne ha ha'

theorem singletons (l : List α) : Partitions l (l.map ([·])) where
  perm := by rw [flatten_map_singleton]
  nonempty := by simp

theorem map (h : Partitions l m) (f : α → β) : Partitions (l.map f) (m.map (·.map f)) where
  perm := by
    rw [← map_flatten]
    exact h.perm.map f
  nonempty := by
    intro rows hr
    have ⟨rows', hr', heq⟩ := mem_map.mp hr
    simp [← heq, h.nonempty _ hr']

theorem append_singleton (h : Partitions l m) : Partitions (a :: l) (m ++ [[a]]) where
  perm := by
    rw [flatten_append]
    exact perm_append_comm.trans (h.perm.cons a)
  nonempty := by
    intro rows hr
    cases mem_append.mp hr
    case inl hr => exact h.nonempty _ hr
    case inr hr => simp_all

theorem flatten_modify (hi : i < m.length) : (m.modify i (· ++ [a])).flatten.Perm (a :: m.flatten) := by
  have ⟨m₁, m₂, hm, hl⟩ := exists_append_of_getElem? (getElem?_eq_getElem hi)
  generalize m[i] = rows at hm
  subst hm hl
  have h := @perm_middle _ a (m₁.flatten ++ rows) m₂.flatten
  simpa [modify_length_append] using h

theorem flatten_eraseIdx (hi : m[i]? = some rows) : m.flatten.Perm (rows ++ (m.eraseIdx i).flatten) := by
  have ⟨m₁, m₂, hm, hl⟩ := exists_append_of_getElem? hi
  subst hm hl
  simp only [eraseIdx_length_append, flatten_append, flatten_cons, ← append_assoc]
  exact perm_append_comm.append_right _

theorem nonempty_modify (h : ∀ rows ∈ m, rows ≠ []) : ∀ rows ∈ m.modify i (· ++ [a]), rows ≠ [] := by
  intro rows hr
  have ⟨k, hk⟩ := getElem?_of_mem hr
  rw [getElem?_modify, Option.map_eq_map, Option.map_eq_some_iff] at hk
  have ⟨rows', hk, heq⟩ := hk
  split at heq
  case isTrue => simp [← heq]
  case isFalse => exact heq ▸ h _ (mem_of_getElem? hk)

theorem add (h : Partitions l m) (hi : i < m.length) : Partitions (a :: l) (m.modify i (· ++ [a])) where
  perm := (flatten_modify hi).trans (h.perm.cons a)
  nonempty := nonempty_modify h.nonempty

theorem move (h : Partitions l m) (hi : m[i]? = some [a]) (hj : j < m.length) (hij : j ≠ i) :
    Partitions l ((m.modify j (· ++ [a])).eraseIdx i) where
  perm := by
    have he := flatten_eraseIdx ((getElem?_modify_ne (· ++ [a]) m hij).trans hi)
    exact ((perm_cons a).mp (he.symm.trans (flatten_modify hj))).trans h.perm
  nonempty rows hr := (h.add hj).nonempty rows (mem_of_mem_eraseIdx hr)

theorem split (h : Partitions l m) (hi : m[i]? = some rows) :
    Partitions l (m.set i (rows.take 1) ++ (rows.drop 1).map ([·])) := by
  have hn := h.nonempty _ (mem_of_getElem? hi)
  have ⟨m₁, m₂, hm, hl⟩ := exists_append_of_getElem? hi
  subst hm hl
  rw [set_length_append]
  cases rows with
  | nil => cases hn rfl
  | cons a rows =>
    have hp : (m₁ ++ [a] :: m₂ ++ rows.map ([·])).flatten.Perm (m₁ ++ (a :: rows) :: m₂).flatten := by
      have h := (@perm_append_comm _ m₂.flatten rows).append_left (m₁.flatten ++ [a])
      simpa [flatten_map_singleton] using h
    refine h.replace hp fun rows' hr => ?_
    simp only [mem_append, mem_cons, mem_map] at hr
    have := h.nonempty rows'
    grind

theorem remove_singleton [DecidableEq α] (h : Partitions l m) (hi : m[i]? = some [a]) :
    Partitions (l.erase a) (m.eraseIdx i) where
  perm := by
    have hp := (h.perm.symm.trans (flatten_eraseIdx hi)).erase a
    rw [singleton_append, erase_cons_head] at hp
    exact hp.symm
  nonempty rows hr := h.nonempty rows (mem_of_mem_eraseIdx hr)

theorem remove [DecidableEq α] (h : Partitions l m) (hi : m[i]? = some rows) (ha : a ∈ rows) (hl : rows.length ≠ 1) :
    Partitions (l.erase a) (m.modify i (·.erase a)) := by
  have ⟨m₁, m₂, hm, hlen⟩ := exists_append_of_getElem? hi
  subst hm hlen
  rw [modify_length_append]
  have hp : (m₁ ++ rows :: m₂).flatten.Perm (a :: (m₁ ++ rows.erase a :: m₂).flatten) := by
    have h := ((perm_cons_erase ha).append_right m₂.flatten).append_left m₁.flatten
    simpa using h.trans perm_middle
  refine ⟨?_, fun rows' hr => ?_⟩
  · have h := (h.perm.symm.trans hp).erase a
    rw [erase_cons_head] at h
    exact h.symm
  · have := h.nonempty rows'
    have := length_erase_of_mem ha
    grind [length_eq_zero_iff]

section Gather

theorem filterMap_head?_length (h : ∀ rows ∈ m, rows ≠ []) : (m.filterMap head?).length = m.length := by
  induction m
  case nil => rfl
  case cons rows m ih =>
    have ⟨a, rows', heq⟩ := exists_cons_of_ne_nil (h _ mem_cons_self)
    simp [heq, ih fun _ hr => h _ (mem_cons_of_mem _ hr)]

theorem filterMap_head?_eq_flatten (h : ∀ rows ∈ m, rows.length = 1) : m.filterMap head? = m.flatten := by
  induction m
  case nil => rfl
  case cons rows m ih =>
    have ⟨a, heq⟩ := length_eq_one_iff.mp (h _ mem_cons_self)
    simp [heq, ih fun _ hr => h _ (mem_cons_of_mem _ hr)]

theorem length_flatten_eq_iff (h : ∀ rows ∈ m, rows ≠ []) :
    m.length ≤ m.flatten.length ∧ (m.flatten.length = m.length ↔ ∀ rows ∈ m, rows.length = 1) := by
  induction m
  case nil => simp
  case cons rows m ih =>
    have ⟨hle, hiff⟩ := ih fun _ hr => h _ (mem_cons_of_mem _ hr)
    have := length_pos_iff.mpr (h _ mem_cons_self)
    simp only [flatten_cons, length_append, length_cons, forall_mem_cons, ← hiff]
    omega

variable {m₁ m₂ : List (List α)} {first : List α} (p : List α → Bool)

theorem gather_iff (h : Partitions l (m₁ ++ first :: m₂)) :
    Partitions l (m₁ ++ (first ++ (m₂.reverse.filter p).filterMap head?) :: m₂.filter (!p ·)) ↔
      ∀ rows ∈ m₂, p rows → rows.length = 1 := by
  have hr : (m₂.reverse.filter p).Perm (m₂.filter p) := (reverse_perm m₂).filter p
  have hf : (m₂.filter p ++ m₂.filter (!p ·)).flatten.Perm m₂.flatten := (filter_append_perm p m₂).flatten
  have hn : ∀ rows ∈ m₂.reverse.filter p, rows ≠ [] := fun rows hr => h.nonempty rows (by simp_all)
  have hall : (∀ rows ∈ m₂, p rows → rows.length = 1) ↔ ∀ rows ∈ m₂.reverse.filter p, rows.length = 1 := by simp
  rw [hall]
  constructor
  case mp =>
    intro hp
    have hl := hp.perm.length_eq.trans h.perm.length_eq.symm
    have := hf.length_eq
    have := hr.flatten.length_eq
    rw [← (length_flatten_eq_iff hn).2, ← filterMap_head?_length hn]
    simp only [flatten_append, flatten_cons, length_append] at *
    omega
  case mpr =>
    intro hs
    rw [filterMap_head?_eq_flatten hs]
    refine h.replace ?_ fun rows hr => ?_
    · simp only [flatten_append, flatten_cons, append_assoc] at hf ⊢
      exact (((hr.flatten.append_right _).trans hf).append_left _).append_left _
    · have := h.nonempty rows
      have := h.nonempty first
      grind [append_eq_nil_iff]

theorem gather_into_iff (h : Partitions l (m₁ ++ first :: m₂)) (hi : i < (m₂.filter (!p ·)).length) :
    Partitions l (m₁ ++ (m₂.filter (!p ·)).modify i (· ++ first.head?.toList)) ↔
      first.length = 1 ∧ ∀ rows ∈ m₂, ¬p rows := by
  have hf : (m₂.filter p ++ m₂.filter (!p ·)).flatten.Perm m₂.flatten := (filter_append_perm p m₂).flatten
  have ⟨a, rows', heq⟩ := exists_cons_of_ne_nil (h.nonempty first (by simp))
  have hm := flatten_modify (a := a) hi
  have hn : ∀ rows ∈ m₂.filter p, rows ≠ [] := fun rows hr => h.nonempty rows (by simp_all)
  subst heq
  constructor
  case mp =>
    intro hp
    have hl := hp.perm.length_eq.trans h.perm.length_eq.symm
    have := hf.length_eq
    have := hm.length_eq
    have hle := (length_flatten_eq_iff hn).1
    simp only [flatten_append, flatten_cons, length_append, length_cons, head?_cons, Option.toList_some] at *
    refine ⟨by omega, ?_⟩
    have hz : (m₂.filter p).length = 0 := by omega
    simpa using filter_eq_nil_iff.mp (length_eq_zero_iff.mp hz)
  case mpr =>
    intro ⟨hl, hs⟩
    have hr : rows' = [] := by simpa using hl
    have hm₂ : m₂.filter (!p ·) = m₂ := filter_eq_self.mpr fun rows hr => by simp [hs rows hr]
    subst hr
    rw [hm₂] at hi hm ⊢
    refine h.replace ?_ fun rows hr => ?_
    · simp only [flatten_append, flatten_cons, head?_cons, Option.toList_some, singleton_append]
      exact hm.append_left _
    · cases mem_append.mp hr
      case inl hr => exact h.nonempty _ (mem_append_left _ hr)
      case inr hr =>
        have hn : ∀ rows ∈ m₂, rows ≠ [] := fun rows hr => h.nonempty rows (by simp [hr])
        exact nonempty_modify hn _ hr

end Gather

end Partitions
