import Mathlib.Algebra.BigOperators.Group.List.Basic
import Mathlib.Algebra.Order.Monoid.Defs
import Mathlib.Data.List.Induction
import Mathlib.Order.Bounds.Defs

-- Records that overwrite one another. What is left in a field is what the last record that has it says.
namespace LastSome

variable {α β γ : Type*} {f : α → Option β} {l l' : List α} {a : α} {p : α → Bool}

def lastSome (f : α → Option β) (l : List α) : Option β :=
  l.foldl (fun found a => (f a).or found) none

theorem foldl_or (found : Option β) :
    l.foldl (fun found a => (f a).or found) found = (lastSome f l).or found := by
  induction l generalizing found
  case nil => rfl
  case cons a l ih =>
    have hl : lastSome f (a :: l) = (lastSome f l).or ((f a).or none) := ih _
    rw [List.foldl_cons, ih, hl, Option.or_none, Option.or_assoc]

@[simp]
theorem lastSome_nil : lastSome f [] = none :=
  rfl

theorem lastSome_append : lastSome f (l ++ l') = (lastSome f l').or (lastSome f l) := by
  rw [lastSome, List.foldl_append, foldl_or]
  rfl

theorem lastSome_cons : lastSome f (a :: l) = (lastSome f l).or (f a) := by
  rw [lastSome, List.foldl_cons, foldl_or, Option.or_none]

theorem lastSome_concat : lastSome f (l ++ [a]) = (f a).or (lastSome f l) := by
  rw [lastSome_append, lastSome_cons]
  rfl

theorem lastSome_eq_none : lastSome f l = none ↔ ∀ a ∈ l, f a = none := by
  induction l
  case nil => simp
  case cons a l ih => rw [lastSome_cons, Option.or_eq_none_iff, ih, List.forall_mem_cons, and_comm]

theorem lastSome_map {g : γ → α} {l : List γ} : lastSome f (l.map g) = lastSome (fun c => f (g c)) l := by
  rw [lastSome, List.foldl_map]
  rfl

theorem lastSome_flatMap {g : γ → List α} {l : List γ} :
    lastSome f (l.flatMap g) = lastSome (fun c => lastSome f (g c)) l := by
  induction l
  case nil => rfl
  case cons c l ih => rw [List.flatMap_cons, lastSome_append, ih, lastSome_cons]

theorem lastSome_filter (h : ∀ a ∈ l, p a = false → f a = none) : lastSome f (l.filter p) = lastSome f l := by
  induction l
  case nil => rfl
  case cons a l ih =>
    have ih := ih fun a ha => h a (List.mem_cons_of_mem _ ha)
    cases hp : p a
    case false =>
      rw [List.filter_cons_of_neg (by rw [hp]; exact nofun), ih, lastSome_cons, h a List.mem_cons_self hp,
        Option.or_none]
    case true => rw [List.filter_cons_of_pos hp, lastSome_cons, lastSome_cons, ih]

-- The chosen records are put in front of the others.
def moved (p : α → Bool) (l : List α) : List α :=
  l.filter p ++ l.filter fun a => !p a

theorem moved_perm (p : α → Bool) (l : List α) : (moved p l).Perm l :=
  List.filter_append_perm p l

theorem lastSome_moved :
    lastSome f (moved p l) = lastSome f l ↔
      ∀ b ∈ lastSome f (l.filter fun a => !p a), lastSome f l = some b := by
  rw [moved, lastSome_append]
  cases h : lastSome f (l.filter fun a => !p a)
  case none =>
    have hf : lastSome f (l.filter p) = lastSome f l := by
      apply lastSome_filter
      intro a ha hp
      exact lastSome_eq_none.mp h a (List.mem_filter.mpr ⟨ha, by rw [hp]; rfl⟩)
    simp [hf]
  case some b => simp [eq_comm]

-- A chosen record has no field in common with those it is moved in front of.
theorem lastSome_moved_of_apart
    (h : ∀ before a after, l = before ++ a :: after → p a = true → f a ≠ none →
      ∀ b ∈ before, p b = false → f b = none) : lastSome f (moved p l) = lastSome f l := by
  induction l using List.reverseRecOn
  case nil => rfl
  case append_singleton l a ih =>
    have ih := ih fun before b after hl => h before b (after ++ [a]) (by rw [hl, List.append_assoc]; rfl)
    rw [moved, lastSome_append] at ih
    rw [moved, List.filter_append, List.filter_append, lastSome_concat, ← ih]
    cases hp : p a
    case false => simp [hp, lastSome_append, lastSome_cons, Option.or_assoc]
    case true =>
      cases hf : f a
      case none => simp [hp, hf, lastSome_append, lastSome_cons]
      case some b =>
        have hnone : lastSome f (l.filter fun a => !p a) = none := by
          apply lastSome_eq_none.mpr
          intro c hc
          have ⟨hm, hpc⟩ := List.mem_filter.mp hc
          exact h l a [] rfl hp (by rw [hf]; exact nofun) c hm (by simpa using hpc)
        simp [hp, hf, hnone, lastSome_append, lastSome_cons]

theorem flatMap_moved_of_apart {g : α → List β}
    (h : ∀ before a after, l = before ++ a :: after → p a = true → g a ≠ [] →
      ∀ b ∈ before, p b = false → g b = []) : (moved p l).flatMap g = l.flatMap g := by
  induction l using List.reverseRecOn
  case nil => rfl
  case append_singleton l a ih =>
    have ih := ih fun before b after hl => h before b (after ++ [a]) (by rw [hl, List.append_assoc]; rfl)
    rw [moved, List.flatMap_append] at ih
    have ha : (l ++ [a]).flatMap g = l.flatMap g ++ g a := by simp
    rw [moved, List.filter_append, List.filter_append, ha, ← ih]
    cases hp : p a
    case false => simp [hp]
    case true =>
      by_cases hg : g a = []
      case pos => simp [hp, hg]
      case neg =>
        have hnil : (l.filter fun a => !p a).flatMap g = [] := by
          apply List.flatMap_eq_nil_iff.mpr
          intro c hc
          have ⟨hm, hpc⟩ := List.mem_filter.mp hc
          exact h l a [] rfl hp hg c hm (by simpa using hpc)
        simp [hp, hnil]

theorem lastSome_none_of_perm (h : l.Perm l') : lastSome f l = none ↔ lastSome f l' = none := by
  rw [lastSome_eq_none, lastSome_eq_none]
  exact ⟨fun hl a ha => hl a (h.mem_iff.mpr ha), fun hl a ha => hl a (h.mem_iff.mp ha)⟩

-- What has been there before is kept just where nothing else is said.
theorem lastSome_append_left_inj (h : l.Perm l') {front : List α} :
    lastSome f (front ++ l) = lastSome f (front ++ l') ↔ lastSome f l = lastSome f l' := by
  rw [lastSome_append, lastSome_append]
  have hn := lastSome_none_of_perm (f := f) h
  cases hl : lastSome f l
  case none => simp [hn.mp hl]
  case some b =>
    cases hl' : lastSome f l'
    case none => exact nomatch hl.symm.trans (hn.mpr hl')
    case some => rfl

end LastSome

-- Quantities that some elements of a list raise to a value and others add to.
namespace RunningMax

variable {α G : Type _} [AddCommMonoid G] {effect : α → G ⊕ G} {start m g : G} {a : α} {l l' : List α}

def added (effect : α → G ⊕ G) (l : List α) : G :=
  (l.map fun a => (effect a).elim (fun _ => 0) id).sum

variable [LinearOrder G] [IsOrderedAddMonoid G]

def step (effect : α → G ⊕ G) (m : G) (a : α) : G :=
  match effect a with
  | .inl value => max value m
  | .inr d     => m + d

-- Nothing takes the quantity back.
theorem le_foldl (h : ∀ a ∈ l, ∀ d, effect a = .inr d → 0 ≤ d) : m ≤ l.foldl (step effect) m := by
  induction l generalizing m
  case nil => exact le_rfl
  case cons a l ih =>
    have ⟨ha, hl⟩ := List.forall_mem_cons.mp h
    have hstep : m ≤ step effect m a := by
      unfold step
      split
      case h_1 => exact le_max_right ..
      case h_2 d hd => exact le_add_of_nonneg_right (ha d hd)
    exact hstep.trans (ih hl)

end RunningMax
