import Mathlib.Data.List.Nodup

-- The neighbours of an element in a queue that holds every element at most once.
namespace Fifo

variable {α : Type _} [DecidableEq α]

def before : List α → α → Option α
  | a :: b :: l, x => if x = b then some a else before (b :: l) x
  | _, _ => none

def after : List α → α → Option α
  | a :: l, x => if x = a then l.head? else after l x
  | [], _ => none

variable {l : List α} {a b t x : α}

@[simp]
theorem before_nil : before [] x = none :=
  rfl

@[simp]
theorem before_singleton : before [a] x = none :=
  rfl

theorem before_cons_cons : before (a :: b :: l) x = if x = b then some a else before (b :: l) x :=
  rfl

@[simp]
theorem after_cons_self : after (a :: l) a = l.head? := by
  simp [after]

theorem after_cons_of_ne (h : x ≠ a) : after (a :: l) x = after l x := by
  simp [after, h]

theorem before_eq_none_of_not_mem (h : x ∉ l) : before l x = none := by
  induction l
  case nil => rfl
  case cons a l ih =>
    cases l
    case nil => rfl
    case cons b l =>
      rw [before_cons_cons, if_neg (by simp_all), ih (by simp_all)]

theorem mem_of_before_eq_some (h : before l x = some a) : x ∈ l := by
  by_contra hx
  rw [before_eq_none_of_not_mem hx] at h
  contradiction

-- Only the first element has nothing in front of it.
theorem head_of_before_eq_none (hx : x ∈ l) (h : before l x = none) : l.head? = some x := by
  induction l
  case nil => cases hx
  case cons a l ih =>
    cases l
    case nil => simp_all
    case cons b l =>
      rw [before_cons_cons] at h
      split at h
      case isTrue => contradiction
      case isFalse hb =>
        rcases List.mem_cons.mp hx with rfl | hx
        · rfl
        · have := ih hx h
          simp_all

theorem before_head (hl : l.Nodup) (h : l.head? = some x) : before l x = none := by
  cases l
  case nil => rfl
  case cons a l =>
    obtain rfl : a = x := Option.some.inj h
    cases l
    case nil => rfl
    case cons b l =>
      have ⟨hab, _⟩ := List.nodup_cons.mp hl
      rw [before_cons_cons, if_neg (fun h => hab (by simp [h]))]
      exact before_eq_none_of_not_mem hab

theorem before_append_of_ne (h : x ≠ t) : before (l ++ [t]) x = before l x := by
  induction l
  case nil => simp
  case cons a l ih =>
    cases l
    case nil => simp [before_cons_cons, h]
    case cons b l =>
      rw [List.cons_append, List.cons_append, before_cons_cons, before_cons_cons]
      exact if_congr Iff.rfl rfl ih

theorem before_append_self (h : t ∉ l) : before (l ++ [t]) t = l.getLast? := by
  induction l
  case nil => rfl
  case cons a l ih =>
    cases l
    case nil => simp [before_cons_cons]
    case cons b l =>
      rw [List.cons_append, List.cons_append, before_cons_cons, if_neg (by simp_all),
        List.getLast?_cons_cons]
      exact ih (by simp_all)

theorem mem_of_eq_before (h : before l x = some a) : a ∈ l := by
  induction l
  case nil => cases h
  case cons b l ih =>
    cases l
    case nil => cases h
    case cons c l =>
      rw [before_cons_cons] at h
      split at h
      case isTrue => simp_all
      case isFalse => exact List.mem_cons_of_mem _ (ih h)

-- The first element is in front of the second one only.
theorem before_eq_head_iff (hl : (a :: l).Nodup) : before (a :: l) x = some a ↔ l.head? = some x := by
  cases l
  case nil => simp
  case cons b l =>
    rw [before_cons_cons]
    split
    case isTrue h => simp [h]
    case isFalse h =>
      simp only [List.head?_cons, Option.some.injEq, Ne.symm h, iff_false]
      exact fun hb => (List.nodup_cons.mp hl).1 (mem_of_eq_before hb)

-- Taking the first element away changes nothing but for the second one.
theorem before_tail (hl : (a :: l).Nodup) :
    before l x = if before (a :: l) x = some a then none else before (a :: l) x := by
  cases l
  case nil => simp
  case cons b l =>
    simp only [before_eq_head_iff hl]
    split
    case isTrue h => exact before_head hl.tail h
    case isFalse h => rw [before_cons_cons, if_neg (by simpa [eq_comm] using h)]

theorem after_append_of_last (h : l.getLast? = some x) (hl : l.Nodup) : after (l ++ [t]) x = some t := by
  induction l
  case nil => simp at h
  case cons a l ih =>
    cases l
    case nil =>
      obtain rfl : a = x := by simpa using h
      simp
    case cons b l =>
      have ⟨hab, hb⟩ := List.nodup_cons.mp hl
      rw [List.getLast?_cons_cons] at h
      have hxa : x ≠ a := by
        rintro rfl
        exact hab (List.mem_of_getLast? h)
      rw [List.cons_append, after_cons_of_ne hxa, ih h hb]

theorem after_append_of_ne (hx : x ∈ l) (h : l.getLast? ≠ some x) : after (l ++ [t]) x = after l x := by
  induction l
  case nil => cases hx
  case cons a l ih =>
    rw [List.cons_append]
    by_cases hxa : x = a
    case pos =>
      subst hxa
      cases l
      case nil => simp at h
      case cons b l => simp
    case neg =>
      rw [after_cons_of_ne hxa, after_cons_of_ne hxa]
      have hx : x ∈ l := (List.mem_cons.mp hx).resolve_left hxa
      cases l
      case nil => cases hx
      case cons b l => exact ih hx (by simpa [List.getLast?_cons_cons] using h)

theorem after_last (h : l.getLast? = some x) (hl : l.Nodup) : after l x = none := by
  induction l
  case nil => rfl
  case cons a l ih =>
    cases l
    case nil =>
      obtain rfl : a = x := by simpa using h
      simp
    case cons b l =>
      have ⟨hab, hb⟩ := List.nodup_cons.mp hl
      rw [List.getLast?_cons_cons] at h
      have hxa : x ≠ a := by
        rintro rfl
        exact hab (List.mem_of_getLast? h)
      rw [after_cons_of_ne hxa, ih h hb]

end Fifo
