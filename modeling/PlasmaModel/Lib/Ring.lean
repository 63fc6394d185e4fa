import Mathlib

-- Circular arrays: what is stored in them from a position on, around the end.
namespace Ring

variable {α : Type} {cells xs : List α} {tail size offset : ℕ}

-- `size` cells from `tail` on.
def contents (cells : List α) (tail size : ℕ) : List α :=
  (cells.rotate tail).take size

-- As a copy of memory writes the elements over the cells from `offset` on.
def overwrite (cells : List α) (offset : ℕ) (xs : List α) : List α :=
  cells.take offset ++ xs ++ cells.drop (offset + xs.length)

theorem contents_zero : contents cells tail 0 = [] :=
  List.take_zero

theorem length_contents (h : size ≤ cells.length) : (contents cells tail size).length = size := by
  rw [contents, List.length_take, List.length_rotate, min_eq_left h]

theorem contents_mod : contents cells (tail % cells.length) size = contents cells tail size := by
  rw [contents, List.rotate_mod, contents]

theorem take_contents {n : ℕ} (h : n ≤ size) : (contents cells tail size).take n = contents cells tail n := by
  rw [contents, List.take_take, min_eq_left h, contents]

theorem drop_contents {n : ℕ} (h : size ≤ cells.length) :
    (contents cells tail size).drop n = contents cells (tail + n) (size - n) := by
  rw [contents, contents, ← List.rotate_rotate, List.drop_take]
  by_cases hn : n ≤ size
  case pos =>
    have hl : n ≤ (cells.rotate tail).length := by
      rw [List.length_rotate]
      omega
    rw [List.rotate_eq_drop_append_take hl, List.take_append_of_le_length]
    rw [List.length_drop, List.length_rotate]
    omega
  case neg => simp [Nat.sub_eq_zero_of_le (Nat.le_of_not_le hn)]

-- The cells up to the end of the array, and those at its start.
theorem contents_eq_append (ht : tail ≤ cells.length) (hs : size ≤ cells.length) :
    contents cells tail size = (cells.drop tail).take size ++ cells.take (size - (cells.length - tail)) := by
  rw [contents, List.rotate_eq_drop_append_take ht, List.take_append, List.length_drop, List.take_take, min_eq_left]
  omega

theorem contents_eq_drop (h : tail + size ≤ cells.length) : contents cells tail size = (cells.drop tail).take size := by
  rw [contents_eq_append (by omega) (by omega), Nat.sub_eq_zero_of_le (by omega), List.take_zero, List.append_nil]

theorem contents_eq_wrapped (ht : tail ≤ cells.length) (hs : size ≤ cells.length) (h : cells.length ≤ tail + size) :
    contents cells tail size = cells.drop tail ++ cells.take (size - (cells.length - tail)) := by
  rw [contents_eq_append ht hs, List.take_of_length_le]
  rw [List.length_drop]
  omega

theorem contents_succ (ht : tail < cells.length) (hs : size + 1 ≤ cells.length) :
    contents cells tail (size + 1) = (cells.drop tail).take 1 ++ contents cells (tail + 1) size := by
  have hdrop : contents cells (tail + 1) size = (contents cells tail (size + 1)).drop 1 := (drop_contents hs).symm
  rw [hdrop, ← contents_eq_drop (by omega), ← take_contents (Nat.le_add_left 1 size), List.take_append_drop]

theorem getElem?_contents {i : ℕ} (hi : i < size) (hs : size ≤ cells.length) :
    (contents cells tail size)[i]? = cells[(tail + i) % cells.length]? := by
  rw [contents, List.getElem?_take_of_lt hi, List.getElem?_rotate (by omega), Nat.add_comm]

theorem length_overwrite (h : offset + xs.length ≤ cells.length) : (overwrite cells offset xs).length = cells.length := by
  simp only [overwrite, List.length_append, List.length_take, List.length_drop]
  omega

theorem getElem?_overwrite {j : ℕ} (h : offset + xs.length ≤ cells.length) : (overwrite cells offset xs)[j]? =
    if offset ≤ j ∧ j < offset + xs.length then xs[j - offset]? else cells[j]? := by
  have hoffset : min offset cells.length = offset := by omega
  rw [overwrite, List.append_assoc, List.getElem?_append, List.length_take, hoffset]
  split
  case isTrue hj => rw [if_neg (by omega), List.getElem?_take_of_lt hj]
  case isFalse hj =>
    rw [List.getElem?_append]
    split
    case isTrue hlt => rw [if_pos (by omega)]
    case isFalse hlt =>
      rw [if_neg (by omega), List.getElem?_drop]
      congr 1
      omega

-- Writes the elements from `head` on, and those that do not fit at the start.
def put (cells : List α) (head : ℕ) (xs : List α) : List α :=
  if head + xs.length ≤ cells.length then
    overwrite cells head xs
  else
    let size := cells.length - head
    overwrite (overwrite cells head (xs.take size)) 0 (xs.drop size)

theorem length_put {head : ℕ} (hh : head ≤ cells.length) (hx : xs.length ≤ cells.length) :
    (put cells head xs).length = cells.length := by
  rw [put]
  split
  case isTrue h => exact length_overwrite h
  case isFalse h =>
    have hfirst : head + (xs.take (cells.length - head)).length ≤ cells.length := by
      rw [List.length_take]
      omega
    have hlength := length_overwrite hfirst
    rw [length_overwrite, hlength]
    rw [hlength, List.length_drop]
    omega

theorem getElem?_put {head j : ℕ} (hh : head < cells.length) (hx : xs.length ≤ cells.length) (hj : j < cells.length) :
    (put cells head xs)[j]? = if (j + (cells.length - head)) % cells.length < xs.length then
      xs[(j + (cells.length - head)) % cells.length]? else cells[j]? := by
  have hmod : (j + (cells.length - head)) % cells.length = if head ≤ j then j - head else j + (cells.length - head) := by
    split
    case isTrue h =>
      rw [show j + (cells.length - head) = j - head + cells.length by omega, Nat.add_mod_right, Nat.mod_eq_of_lt (by omega)]
    case isFalse h => exact Nat.mod_eq_of_lt (by omega)
  rw [hmod, put]
  split
  case isTrue h =>
    rw [getElem?_overwrite h]
    split <;> split <;> grind
  case isFalse h =>
    have hfirst : head + (xs.take (cells.length - head)).length ≤ cells.length := by
      rw [List.length_take]
      omega
    have hlength := length_overwrite hfirst
    rw [getElem?_overwrite, getElem?_overwrite hfirst]
    · simp only [List.length_take, List.length_drop]
      grind
    · rw [hlength, List.length_drop]
      omega

theorem mod_of_lt_two_mul {a n : ℕ} (h : a < 2 * n) : a % n = if a < n then a else a - n := by
  split
  case isTrue hlt => exact Nat.mod_eq_of_lt hlt
  case isFalse hle => rw [Nat.mod_eq_sub_mod (not_lt.mp hle), Nat.mod_eq_of_lt (by omega)]

-- How far behind the cell where the writing starts the one is that is read.
theorem position_put {n i : ℕ} (hi : i < n) (hs : size ≤ n) :
    ((tail + i) % n + (n - (tail + size) % n)) % n = if size ≤ i then i - size else i + n - size := by
  have ht : tail % n < n := Nat.mod_lt _ (by omega)
  rw [← Nat.mod_add_mod tail n i, ← Nat.mod_add_mod tail n size]
  generalize tail % n = t at ht
  rw [mod_of_lt_two_mul (show t + i < 2 * n by omega), mod_of_lt_two_mul (show t + size < 2 * n by omega),
    mod_of_lt_two_mul (by split <;> split <;> omega)]
  grind

theorem contents_put (h : size + xs.length ≤ cells.length) (hc : 0 < cells.length) :
    contents (put cells ((tail + size) % cells.length) xs) tail (size + xs.length) = contents cells tail size ++ xs := by
  have hlength : (put cells ((tail + size) % cells.length) xs).length = cells.length :=
    length_put (Nat.mod_lt _ hc).le (by omega)
  refine List.ext_getElem? fun i => ?_
  by_cases hi : i < size + xs.length
  case pos =>
    rw [getElem?_contents hi (by omega), hlength, getElem?_put (Nat.mod_lt _ hc) (by omega) (Nat.mod_lt _ hc),
      List.getElem?_append, length_contents (by omega), position_put (by omega) (by omega)]
    by_cases his : i < size
    case pos => rw [if_pos his, if_neg (not_le.mpr his), if_neg (by omega), getElem?_contents his (by omega)]
    case neg => rw [if_neg his, if_pos (not_lt.mp his), if_pos (by omega)]
  case neg =>
    rw [List.getElem?_eq_none, List.getElem?_eq_none]
    · rw [List.length_append, length_contents (by omega)]
      omega
    · rw [length_contents (by omega)]
      omega

end Ring
