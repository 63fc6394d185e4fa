import Mathlib.Data.List.Sort
import PlasmaModel.Lib.ListMove

-- Lists that are stacked by a height, those below zero under what they belong to and the others over it. Lists of the
-- same height keep their order.
namespace Layers

variable {α β γ : Type _}

section Sorting

variable {r : α → α → Prop} [DecidableRel r] [IsTrans α r] [Std.Total r] {p : α → Bool} {a : α} {l : List α}

omit [IsTrans α r] [Std.Total r] in
theorem orderedInsert_of_forall (h : ∀ b ∈ l, r a b) : l.orderedInsert r a = a :: l := by
  cases l
  case nil => rfl
  case cons b l => exact List.orderedInsert_cons_of_le r l (h b List.mem_cons_self)

omit [Std.Total r] in
theorem filter_orderedInsert (h : l.Pairwise r) :
    (l.orderedInsert r a).filter p = if p a then (l.filter p).orderedInsert r a else l.filter p := by
  induction l
  case nil => cases hp : p a <;> simp [hp]
  case cons b l ih =>
    have ⟨hb, hl⟩ := List.pairwise_cons.mp h
    by_cases hab : r a b
    case pos =>
      have hle : ∀ c ∈ (b :: l).filter p, r a c := fun c hc =>
        (List.mem_cons.mp (List.mem_filter.mp hc).1).elim (fun heq => heq ▸ hab) fun hc => IsTrans.trans a b c hab (hb c hc)
      rw [List.orderedInsert_cons_of_le r l hab, orderedInsert_of_forall hle, List.filter_cons]
    case neg =>
      rw [List.orderedInsert_of_not_le r l hab, List.filter_cons, ih hl, List.filter_cons]
      cases hpb : p b
      case false => simp
      case true =>
        cases p a
        case false => simp
        case true => simp [hab]

theorem filter_insertionSort (p : α → Bool) (l : List α) :
    (l.insertionSort r).filter p = (l.filter p).insertionSort r := by
  induction l
  case nil => rfl
  case cons a l ih =>
    rw [List.insertionSort_cons, filter_orderedInsert (List.pairwise_insertionSort r l), ih, List.filter_cons]
    cases p a <;> rfl

end Sorting

def layered (z : α → Int) (f : α → List β) (self : List β) (l : List α) : List β :=
  let sorted := l.insertionSort fun a b => z a ≤ z b
  (sorted.filter (z · < 0)).flatMap f ++ self ++ (sorted.filter (0 ≤ z ·)).flatMap f

variable {z z' : α → Int} {f : α → List β} {self : List β} {l : List α}

theorem layered_map (g : γ → α) (l : List γ) : layered z f self (l.map g) = layered (z ∘ g) (f ∘ g) self l := by
  simp only [layered, ← List.map_insertionSort (r := fun a b => z (g a) ≤ z (g b)) (s := fun a b => z a ≤ z b) g l
    fun _ _ _ _ => Iff.rfl, List.filter_map, List.flatMap_map, Function.comp_def]

theorem filter_layered (p : β → Bool) :
    (layered z f self l).filter p = layered z (fun a => (f a).filter p) (self.filter p) l := by
  simp only [layered, List.filter_append, List.filter_flatMap]

theorem mem_layered {b : β} : b ∈ layered z f self l ↔ b ∈ self ∨ ∃ a ∈ l, b ∈ f a := by
  have hsort (a) : a ∈ l.insertionSort (fun a b => z a ≤ z b) ↔ a ∈ l := List.mem_insertionSort _
  simp only [layered, List.mem_append, List.mem_flatMap, List.mem_filter, hsort, decide_eq_true_eq]
  grind

-- Empty lists do not count.
theorem layered_filter : layered z f self (l.filter fun a => !(f a).isEmpty) = layered z f self l := by
  have : Std.Total fun a b => z a ≤ z b := ⟨fun a b => Int.le_total (z a) (z b)⟩
  have : IsTrans α fun a b => z a ≤ z b := ⟨fun a b c => Int.le_trans⟩
  have hdrop (l : List α) : (l.filter fun a => !(f a).isEmpty).flatMap f = l.flatMap f := by
    induction l
    case nil => rfl
    case cons a l ih =>
      rw [List.filter_cons, List.flatMap_cons]
      cases h : f a <;> simp [h, ih]
  have hcomm (q : α → Bool) (l : List α) :
      ((l.filter fun a => !(f a).isEmpty).filter q).flatMap f = (l.filter q).flatMap f := by
    rw [List.filter_comm, hdrop]
  simp only [layered, ← filter_insertionSort, hcomm]

def heights (z : α → Int) (f : α → List β) (l : List α) : List (Int × List β) :=
  (l.filter fun a => !(f a).isEmpty).map fun a => (z a, f a)

theorem heights_eq_filter : heights z f l = (l.map fun a => (z a, f a)).filter fun h => !h.2.isEmpty := by
  rw [heights, List.filter_map]
  rfl

theorem layered_eq_heights : layered z f self l = layered Prod.fst Prod.snd self (heights z f l) := by
  rw [heights, layered_map]
  exact layered_filter.symm

theorem layered_congr {g : γ → List β} {h : γ → Int} {k : List γ} (heq : heights z f l = heights h g k) :
    layered z f self l = layered h g self k := by
  rw [layered_eq_heights, heq, ← layered_eq_heights]

-- Changes of the stack that cannot be seen.

theorem heights_append (l l' : List α) : heights z f (l ++ l') = heights z f l ++ heights z f l' := by
  rw [heights, List.filter_append, List.map_append]
  rfl

theorem heights_singleton {a : α} (h : f a = []) : heights z f [a] = [] := by
  simp [heights, h]

theorem heights_cons {a : α} (l : List α) : heights z f (a :: l) = heights z f [a] ++ heights z f l :=
  heights_append [a] l

theorem heights_modify {g : α → α} {i : Nat} (h : ∀ a, l[i]? = some a → f (g a) = f a ∧ (z (g a) = z a ∨ f a = [])) :
    heights z f (l.modify i g) = heights z f l := by
  induction l generalizing i
  case nil => rw [List.modify_nil]
  case cons a l ih =>
    cases i
    case zero =>
      have ⟨hf, hz⟩ := h a rfl
      rw [List.modify_zero_cons, heights_cons, heights_cons (a := a)]
      congr 1
      cases hz
      case inl hz => simp [heights_eq_filter, hf, hz]
      case inr hz => rw [heights_singleton hz, heights_singleton (hf.trans hz)]
    case succ i => rw [List.modify_succ_cons, heights_cons, ih h, ← heights_cons]

theorem heights_eraseIdx {i : Nat} (h : ∀ a, l[i]? = some a → f a = []) :
    heights z f (l.eraseIdx i) = heights z f l := by
  induction l generalizing i
  case nil => rfl
  case cons a l ih =>
    cases i
    case zero =>
      rw [List.eraseIdx_zero, List.tail_cons, heights_cons, heights_singleton (h a rfl), List.nil_append]
    case succ i => rw [List.eraseIdx_cons_succ, heights_cons, ih h, ← heights_cons]

theorem heights_insertIdx {a : α} (h : f a = []) (i : Nat) : heights z f (l.insertIdx i a) = heights z f l := by
  induction l generalizing i
  case nil =>
    cases i
    case zero => exact heights_singleton h
    case succ i => rfl
  case cons b l ih =>
    cases i
    case zero => rw [List.insertIdx_zero, heights_cons, heights_singleton h, List.nil_append]
    case succ i => rw [List.insertIdx_succ_cons, heights_cons, ih, ← heights_cons]

theorem heights_moveIdx {i j : Nat} (h : ∀ a, l[i]? = some a → f a = []) :
    heights z f (ListMove.moveIdx i j l) = heights z f l := by
  rw [ListMove.moveIdx]
  split
  case h_1 => rfl
  case h_2 a ha => rw [heights_insertIdx (h a ha), heights_eraseIdx h]

end Layers
