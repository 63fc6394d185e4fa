import Mathlib.Data.List.Perm.Basic

-- Elements of lists that move from one place to another.
namespace ListMove

variable {α : Type} {l l' : List α} {a : α}

theorem insertIdx_length_append : (l ++ l').insertIdx l.length a = l ++ a :: l' := by
  induction l
  case nil => rfl
  case cons b l ih => exact congrArg (b :: ·) ih

theorem insertIdx_length_add_append (l l' : List α) (a : α) (k : Nat) :
    (l ++ l').insertIdx (l.length + k) a = l ++ l'.insertIdx k a := by
  induction l
  case nil => rw [List.length_nil, Nat.zero_add, List.nil_append, List.nil_append]
  case cons b l ih =>
    rw [List.length_cons, Nat.add_right_comm, List.cons_append, List.insertIdx_succ_cons, ih, List.cons_append]

-- Around the place of an element that is in the list.
theorem insertIdx_idxOf? [BEq α] [LawfulBEq α] {i : Nat} (h : l.idxOf? a = some i) :
    ∃ l₁ l₂, l = l₁ ++ a :: l₂ ∧ ∀ k b, l.insertIdx (i + k) b = l₁ ++ (a :: l₂).insertIdx k b := by
  have ⟨hi, ha, _⟩ := List.idxOf?_eq_some_iff.mp h
  have hl : l = l.take i ++ a :: l.drop (i + 1) := by
    rw [← ha, ← List.drop_eq_getElem_cons hi, List.take_append_drop]
  have hlen : (l.take i).length = i := List.length_take_of_le (Nat.le_of_lt hi)
  refine ⟨l.take i, l.drop (i + 1), hl, fun k b => ?_⟩
  have hinsert := insertIdx_length_add_append (l.take i) (a :: l.drop (i + 1)) b k
  rwa [← hl, hlen] at hinsert

-- The element at `i` moves to `j`.
def moveIdx (i j : Nat) (l : List α) : List α :=
  match l[i]? with
  | none => l
  | some a => (l.eraseIdx i).insertIdx j a

variable {i j k : Nat} {l₁ l₂ l₃ : List α}

theorem moveIdx_forward (l₁ l₂ l₃ : List α) (a : α) :
    moveIdx l₁.length (l₁.length + l₂.length) (l₁ ++ a :: (l₂ ++ l₃)) = l₁ ++ (l₂ ++ a :: l₃) := by
  have ha : (l₁ ++ a :: (l₂ ++ l₃))[l₁.length]? = some a := by simp
  have herase : (l₁ ++ a :: (l₂ ++ l₃)).eraseIdx l₁.length = (l₁ ++ l₂) ++ l₃ := by
    rw [List.eraseIdx_append_of_length_le (Nat.le_refl _), Nat.sub_self, List.eraseIdx_cons_zero, List.append_assoc]
  rw [moveIdx, ha]
  dsimp only
  rw [herase, ← List.length_append, insertIdx_length_append, List.append_assoc]

theorem moveIdx_backward (l₁ l₂ l₃ : List α) (a : α) :
    moveIdx (l₁.length + l₂.length) l₁.length (l₁ ++ (l₂ ++ a :: l₃)) = l₁ ++ a :: (l₂ ++ l₃) := by
  have ha : (l₁ ++ (l₂ ++ a :: l₃))[l₁.length + l₂.length]? = some a := by simp
  have herase : (l₁ ++ (l₂ ++ a :: l₃)).eraseIdx (l₁.length + l₂.length) = l₁ ++ (l₂ ++ l₃) := by
    rw [← List.append_assoc, ← List.length_append, List.eraseIdx_append_of_length_le (Nat.le_refl _), Nat.sub_self,
      List.eraseIdx_cons_zero, List.append_assoc]
  rw [moveIdx, ha]
  dsimp only
  rw [herase, insertIdx_length_append]

-- An element moves over those between its old and its new place.
theorem moveIdx_cases (ha : l[i]? = some a) (hj : j < l.length) :
    (∃ l₁ l₂ l₃, l₁.length = i ∧ l₁.length + l₂.length = j ∧ l = l₁ ++ a :: (l₂ ++ l₃) ∧
      moveIdx i j l = l₁ ++ (l₂ ++ a :: l₃)) ∨
    ∃ l₁ l₂ l₃, l₁.length = j ∧ l₁.length + l₂.length = i ∧ l = l₁ ++ (l₂ ++ a :: l₃) ∧
      moveIdx i j l = l₁ ++ a :: (l₂ ++ l₃) := by
  have ⟨hi, ha⟩ := List.getElem?_eq_some_iff.mp ha
  have hl : l = l.take i ++ a :: l.drop (i + 1) := by rw [← ha, ← List.drop_eq_getElem_cons hi, List.take_append_drop]
  have hlen : (l.take i).length = i := List.length_take_of_le (Nat.le_of_lt hi)
  by_cases h : i ≤ j
  case pos =>
    have hsplit : l = l.take i ++ a :: ((l.drop (i + 1)).take (j - i) ++ (l.drop (i + 1)).drop (j - i)) := by
      rw [List.take_append_drop]
      exact hl
    have hmid : ((l.drop (i + 1)).take (j - i)).length = j - i := by
      rw [List.length_take, List.length_drop]
      omega
    have hmove := moveIdx_forward (l.take i) ((l.drop (i + 1)).take (j - i)) ((l.drop (i + 1)).drop (j - i)) a
    rw [← hsplit, hmid, hlen, Nat.add_sub_cancel' h] at hmove
    exact .inl ⟨_, _, _, hlen, by omega, hsplit, hmove⟩
  case neg =>
    have hsplit : l = (l.take i).take j ++ ((l.take i).drop j ++ a :: l.drop (i + 1)) := by
      rw [← List.append_assoc, List.take_append_drop]
      exact hl
    have hfirst : ((l.take i).take j).length = j := by
      rw [List.length_take, hlen]
      omega
    have hmid : ((l.take i).drop j).length = i - j := by rw [List.length_drop, hlen]
    have hmove := moveIdx_backward ((l.take i).take j) ((l.take i).drop j) (l.drop (i + 1)) a
    rw [← hsplit, hmid, hfirst, Nat.add_sub_cancel' (by omega)] at hmove
    exact .inr ⟨_, _, _, hfirst, by omega, hsplit, hmove⟩

theorem moveIdx_perm (hj : j < l.length) : (moveIdx i j l).Perm l := by
  cases ha : l[i]?
  case none => rw [moveIdx, ha]
  case some a =>
    rcases moveIdx_cases ha hj with ⟨l₁, l₂, l₃, _, _, hl, hm⟩ | ⟨l₁, l₂, l₃, _, _, hl, hm⟩
    · rw [hm, hl]
      exact List.Perm.append_left l₁ List.perm_middle
    · rw [hm, hl]
      exact List.Perm.append_left l₁ List.perm_middle.symm

-- What is behind both places stays where it is, and so does what is before them.

-- The first occurrence of `a` moves to `i`.
def moveTo [DecidableEq α] (l : List α) (a : α) (i : Nat) : List α :=
  if l.idxOf a ≠ i then (l.eraseIdx (l.idxOf a)).insertIdx i a else l

theorem moveTo_append [DecidableEq α] (hm : a ∈ l') (hl : a ∉ l) :
    moveTo (l ++ l') a l.length = l ++ a :: l'.erase a := by
  have hi : (l ++ l').idxOf a = l.length + l'.idxOf a := List.idxOf_append_of_notMem hl
  rw [moveTo, hi]
  split
  case isTrue =>
    rw [List.eraseIdx_append_of_length_le (Nat.le_add_right _ _), Nat.add_sub_cancel_left,
      List.eraseIdx_idxOf_eq_erase, insertIdx_length_append]
  case isFalse hz =>
    have hz : l'.idxOf a = 0 := by omega
    cases l' with
    | nil => contradiction
    | cons b rest =>
      have hb : b = a := by
        by_contra hne
        exact absurd hz (by simp [hne])
      rw [hb, List.erase_cons_head]

end ListMove
