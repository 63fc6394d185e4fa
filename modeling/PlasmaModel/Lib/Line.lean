import Mathlib.GroupTheory.Perm.List

-- A line of cells, of which those behind the elements of a list are missing, and the search for the next one.
namespace Line

variable {α : Type} {l : List α} {a here : α} {i j size fuel : Nat} {wrap : Bool}

-- The search stays where it is if there is no way to go on.
def search (cell : Nat → Option α) (advance : Nat → Option Nat) (here : α) : Nat → Nat → Option α
  | 0, _ => none
  | fuel + 1, i =>
    match advance i with
    | none   => some here
    | some j =>
      match cell j with
      | none   => search cell advance here fuel j
      | some a => some a

def up (size : Nat) (wrap : Bool) (i : Nat) : Option Nat :=
  if size ≤ i + 1 then if wrap then some 0 else none else some (i + 1)

def down (size : Nat) (wrap : Bool) : Nat → Option Nat
  | 0     => if wrap then some (size - 1) else none
  | i + 1 => some i

-- Behind the last cell there are only missing ones up to the end of the line.
theorem search_up_end (hl : 0 < l.length) (hi : l.length ≤ i + 1) (hf : size - i ≤ fuel) (hs : i < size) :
    search (l[·]?) (up size wrap) here fuel i = if wrap then l[0]? else some here := by
  induction fuel generalizing i
  case zero => omega
  case succ fuel ih =>
    rw [search, up]
    by_cases hend : size ≤ i + 1
    case pos =>
      rw [if_pos hend]
      cases wrap
      case false => rfl
      case true => simp [hl]
    case neg =>
      simp only [if_neg hend, List.getElem?_eq_none hi]
      exact ih (Nat.le_succ_of_le hi) (by omega) (Nat.lt_of_not_le hend)

theorem search_up_next (hi : i + 1 < l.length) (hs : l.length ≤ size) (hf : 0 < fuel) :
    search (l[·]?) (up size wrap) here fuel i = l[i + 1]? := by
  cases fuel with
  | zero => cases hf
  | succ fuel =>
    have hend : ¬size ≤ i + 1 := by omega
    simp only [search, up, if_neg hend, List.getElem?_eq_getElem hi]

theorem search_down_next (hi : i < l.length) (hf : 0 < fuel) :
    search (l[·]?) (down size wrap) here fuel (i + 1) = l[i]? := by
  cases fuel with
  | zero => cases hf
  | succ fuel => simp only [search, down, List.getElem?_eq_getElem hi]

theorem search_down_missing (hl : 0 < l.length) (hi : l.length ≤ i) (hf : i - l.length < fuel) :
    search (l[·]?) (down size wrap) here fuel i = l[l.length - 1]? := by
  induction fuel generalizing i
  case zero => cases hf
  case succ fuel ih =>
    cases i with
    | zero => omega
    | succ i =>
      by_cases heq : l.length = i + 1
      case pos =>
        have hlast : i < l.length := by omega
        rw [search_down_next hlast (Nat.zero_lt_succ fuel), heq, Nat.add_sub_cancel]
      case neg =>
        have hi : l.length ≤ i := by omega
        simp only [search, down, List.getElem?_eq_none hi]
        exact ih hi (by omega)

variable [DecidableEq α] (hn : l.Nodup) (ha : l[i]? = some a) (hs : l.length ≤ size) (hf : size ≤ fuel)
include hn ha hs hf

theorem search_up_wrap : search (l[·]?) (up size true) here fuel i = some (l.formPerm a) := by
  have ⟨hi, ha⟩ := List.getElem?_eq_some_iff.mp ha
  have hperm := List.formPerm_apply_getElem l hn i hi
  rw [ha] at hperm
  by_cases hend : i + 1 < l.length
  case pos =>
    simp only [Nat.mod_eq_of_lt hend] at hperm
    rw [search_up_next hend hs (by omega), hperm, List.getElem?_eq_getElem hend]
  case neg =>
    have hlen : i + 1 = l.length := by omega
    simp only [hlen, Nat.mod_self] at hperm
    rw [search_up_end (by omega) (by omega) (by omega) (by omega), if_pos rfl, hperm, List.getElem?_eq_getElem]

omit [DecidableEq α] hn in
theorem search_up_stop : search (l[·]?) (up size false) a fuel i = some ((l[i + 1]?).getD a) := by
  have ⟨hi, ha⟩ := List.getElem?_eq_some_iff.mp ha
  by_cases hend : i + 1 < l.length
  case pos =>
    rw [search_up_next hend hs (by omega), List.getElem?_eq_getElem hend]
    rfl
  case neg =>
    have hnone : l[i + 1]? = none := List.getElem?_eq_none (Nat.le_of_not_lt hend)
    rw [search_up_end (by omega) (by omega) (by omega) (by omega), hnone]
    rfl

theorem search_down_wrap : search (l[·]?) (down size true) here fuel i = some (l.formPerm⁻¹ a) := by
  have ⟨hi, ha⟩ := List.getElem?_eq_some_iff.mp ha
  cases i with
  | succ i =>
    have hperm := List.formPerm_apply_lt_getElem l hn i hi
    rw [ha] at hperm
    rw [search_down_next (Nat.lt_of_succ_lt hi) (by omega), List.getElem?_eq_getElem (Nat.lt_of_succ_lt hi),
      Equiv.Perm.eq_inv_iff_eq.mpr hperm]
  | zero =>
    have hlast : l.length - 1 < l.length := Nat.sub_one_lt_of_lt hi
    have hperm := List.formPerm_apply_getElem l hn (l.length - 1) hlast
    simp only [Nat.sub_add_cancel hi, Nat.mod_self, ha] at hperm
    have hfirst : search (l[·]?) (down size true) here fuel 0 = search (l[·]?) (down size true) here fuel size := by
      cases fuel with
      | zero => omega
      | succ fuel =>
        cases size with
        | zero => omega
        | succ size => rfl
    rw [hfirst, search_down_missing hi hs (by omega), List.getElem?_eq_getElem hlast,
      Equiv.Perm.eq_inv_iff_eq.mpr hperm]

omit [DecidableEq α] hn hs hf in
theorem search_down_stop (hpos : 0 < fuel) :
    search (l[·]?) (down size false) a fuel i = some (if i = 0 then a else (l[i - 1]?).getD a) := by
  have ⟨hi, _⟩ := List.getElem?_eq_some_iff.mp ha
  cases i with
  | zero =>
    cases fuel with
    | zero => cases hpos
    | succ fuel => rfl
  | succ i =>
    rw [search_down_next (Nat.lt_of_succ_lt hi) hpos]
    simp [Nat.lt_of_succ_lt hi]

end Line
