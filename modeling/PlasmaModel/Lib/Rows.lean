import Mathlib.Data.List.Nodup

-- Rows of a list that are erased one by one from the last to the first, so that no row moves before its turn.
namespace List

variable {α : Type} {l : List α} {rows : List Nat} {p : α → Bool}

def eraseRows (rows : List Nat) (l : List α) : List α :=
  rows.foldr (fun row l => l.eraseIdx row) l

theorem eraseRows_nil : eraseRows [] l = l :=
  rfl

theorem eraseRows_cons (row : Nat) : eraseRows (row :: rows) l = (eraseRows rows l).eraseIdx row :=
  rfl

theorem eraseRows_map_succ {a : α} : eraseRows (rows.map (· + 1)) (a :: l) = a :: eraseRows rows l := by
  induction rows
  case nil => rfl
  case cons row rows ih => rw [map_cons, eraseRows_cons, ih, eraseIdx_cons_succ, eraseRows_cons]

-- Rows that are all after the first one are those of the rest.
theorem exists_map_succ (h : ∀ row ∈ rows, 0 < row) : ∃ rows' : List Nat, rows = rows'.map (· + 1) := by
  refine ⟨rows.map (· - 1), ?_⟩
  rw [map_map]
  refine (map_id rows).symm.trans (map_congr_left fun row hr => ?_)
  exact (Nat.sub_add_cancel (h row hr)).symm

theorem eraseRows_eq_filter (hs : rows.Pairwise (· < ·))
    (hp : ∀ row, row ∈ rows ↔ ∃ a, l[row]? = some a ∧ p a = true) : eraseRows rows l = l.filter (!p ·) := by
  induction l generalizing rows
  case nil =>
    have hn : rows = [] := eq_nil_iff_forall_not_mem.mpr fun row hr => by
      have ⟨_, ha, _⟩ := (hp row).mp hr
      cases ha
    rw [hn, eraseRows_nil, filter_nil]
  case cons a l ih =>
    -- the rows of the rest are one less there
    have hrest (rows' : List Nat) (hs : (rows'.map (· + 1)).Pairwise (· < ·))
        (hr : ∀ row, row + 1 ∈ rows ↔ row + 1 ∈ rows'.map (· + 1)) : eraseRows rows' l = l.filter (!p ·) := by
      apply ih
      · exact (pairwise_map.mp hs).imp Nat.lt_of_succ_lt_succ
      · intro row
        have hm := (hr row).symm.trans (hp (row + 1))
        rw [getElem?_cons_succ] at hm
        rw [← hm, mem_map]
        exact ⟨fun h => ⟨row, h, rfl⟩, fun ⟨_, h, he⟩ => Nat.succ_inj.mp he ▸ h⟩
    have h0 : 0 ∈ rows ↔ p a = true := (hp 0).trans ⟨fun ⟨_, he, h⟩ => Option.some_inj.mp he ▸ h, fun h => ⟨a, rfl, h⟩⟩
    cases rows with
    | nil =>
      have hn : ¬p a = true := fun h => not_mem_nil (h0.mpr h)
      rw [filter_cons_of_pos (by simpa using hn), eraseRows_nil, ← hrest [] .nil fun _ => Iff.rfl, eraseRows_nil]
    | cons row rows =>
      have ⟨hlt, hs'⟩ := pairwise_cons.mp hs
      cases row with
      | zero =>
        have ⟨rows', he⟩ := exists_map_succ hlt
        rw [filter_cons_of_neg (by simpa using h0.mp mem_cons_self), eraseRows_cons, he, eraseRows_map_succ,
          eraseIdx_cons_zero]
        refine hrest rows' (he ▸ hs') fun row => ?_
        rw [mem_cons, he, or_iff_right (Nat.succ_ne_zero row)]
      | succ row =>
        have hpos : ∀ r ∈ (row + 1) :: rows, 0 < r := by
          intro r hr
          cases mem_cons.mp hr with
          | inl he => exact he ▸ Nat.succ_pos row
          | inr hr => exact Nat.lt_trans (Nat.succ_pos row) (hlt r hr)
        have ⟨rows', he⟩ := exists_map_succ hpos
        have hn : ¬p a = true := fun h => Nat.lt_irrefl 0 (hpos 0 (h0.mpr h))
        rw [filter_cons_of_pos (by simpa using hn), he, eraseRows_map_succ]
        rw [hrest rows' (he ▸ hs) fun row => by rw [he]]

theorem Nodup.eraseIdx_eq_filter [DecidableEq α] {a : α} {i : Nat} (hn : l.Nodup) (h : l[i]? = some a) :
    l.eraseIdx i = l.filter (· ≠ a) := by
  have ⟨hlt, ha⟩ := List.getElem?_eq_some_iff.mp h
  rw [← hn.erase_getElem i hlt, ha, hn.erase_eq_filter]
  exact filter_congr fun b _ => by by_cases hb : b = a <;> simp [hb]

theorem filter_eq_filter_iff {q : α → Bool} : l.filter p = l.filter q ↔ ∀ a ∈ l, (p a = true ↔ q a = true) := by
  constructor
  case mp =>
    intro h a ha
    have hm : a ∈ l.filter p ↔ a ∈ l.filter q := by rw [h]
    rwa [mem_filter, mem_filter, and_iff_right ha, and_iff_right ha] at hm
  case mpr => exact fun h => filter_congr fun a ha => Bool.eq_iff_iff.mpr (h a ha)

end List
