import Mathlib.Data.List.Nodup

-- Breadth-first traversals of a graph visit the nodes in the order of their distance from the roots.
namespace BreadthFirst

-- A path of the given length from a root.
inductive Chain {α : Type _} (root : α → Prop) (edge : α → α → Prop) : Nat → α → Prop
  | root {a : α} : root a → Chain root edge 0 a
  | step {n : Nat} {a b : α} : Chain root edge n a → edge a b → Chain root edge (n + 1) b

variable {α : Type _} {root : α → Prop} {edge : α → α → Prop} {done queue new roots : List α} {a b : α} {n : Nat}

-- The nodes in the queue are at distance `k`, followed by nodes at distance `k + 1`.
structure Level (root : α → Prop) (edge : α → α → Prop) (done queue : List α) (k : Nat) (front next : List α) : Prop where
  split   : queue = front ++ next
  near    : ∀ a ∈ front, Chain root edge k a
  far     : ∀ a ∈ next, Chain root edge (k + 1) a
  visited : ∀ a m, Chain root edge m a → m < k → a ∈ done
  reached : ∀ a, Chain root edge k a → a ∈ done ++ front

-- What has left the queue is done.
structure Frontier (root : α → Prop) (edge : α → α → Prop) (done queue : List α) : Prop where
  nodup  : (done ++ queue).Nodup
  closed : ∀ a ∈ done, ∀ b, edge a b → b ∈ done ++ queue
  level  : ∃ k front next, Level root edge done queue k front next

namespace Frontier

theorem start (hn : roots.Nodup) (hr : ∀ a, a ∈ roots ↔ root a) : Frontier root edge [] roots where
  nodup := hn
  closed a ha := absurd ha List.not_mem_nil
  level := by
    refine ⟨0, roots, [], (List.append_nil _).symm, fun a ha => .root ((hr a).mp ha), by simp, by simp, fun a ha => ?_⟩
    cases ha
    case root h => exact (hr a).mpr h

-- Where the nodes at one distance are all done, the next ones begin.
theorem level_cons (h : Frontier root edge done (a :: queue)) :
    ∃ k front next, Level root edge done (a :: queue) k (a :: front) next := by
  have ⟨k, front, next, hl⟩ := h.level
  cases front
  case cons b front =>
    have hs := hl.split
    rw [List.cons_append] at hs
    obtain ⟨rfl, _⟩ := List.cons.inj hs
    exact ⟨k, front, next, hl⟩
  case nil =>
    have hs : a :: queue = next := hl.split
    have hdone : ∀ a, Chain root edge k a → a ∈ done := fun a ha => by simpa using hl.reached a ha
    refine ⟨k + 1, queue, [], (List.append_nil _).symm, hs ▸ hl.far, by simp, fun b m hb hm => ?_, fun b hb => ?_⟩
    · rcases Nat.lt_succ_iff_lt_or_eq.mp hm with hm | rfl
      · exact hl.visited b m hb hm
      · exact hdone b hb
    · cases hb
      case step c hc he => exact h.closed c (hdone c hc) b he

theorem pop (h : Frontier root edge done (a :: queue)) (hn : new.Nodup)
    (hnew : ∀ b ∈ new, edge a b ∧ b ∉ done ++ a :: queue)
    (hall : ∀ b, edge a b → b ∈ done ++ a :: queue ++ new) : Frontier root edge (done ++ [a]) (queue ++ new) := by
  have happend : done ++ [a] ++ (queue ++ new) = done ++ a :: queue ++ new := by simp
  have ⟨k, front, next, hl⟩ := h.level_cons
  constructor
  case nodup =>
    rw [happend]
    exact h.nodup.append hn fun b hb hb' => (hnew b hb').2 hb
  case closed =>
    intro b hb c hc
    rw [happend]
    rcases List.mem_append.mp hb with hb | hb
    · exact List.mem_append_left _ (h.closed b hb c hc)
    · exact hall c (List.mem_singleton.mp hb ▸ hc)
  case level =>
    have ha := hl.near a List.mem_cons_self
    refine ⟨k, front, next ++ new, ?_, fun b hb => hl.near b (List.mem_cons_of_mem _ hb), fun b hb => ?_,
      fun b m hb hm => List.mem_append_left _ (hl.visited b m hb hm), fun b hb => ?_⟩
    · have hq : queue = front ++ next := (List.cons.inj hl.split).2
      rw [hq, List.append_assoc]
    · rcases List.mem_append.mp hb with hb | hb
      · exact hl.far b hb
      · exact .step ha (hnew b hb).1
    · simpa using hl.reached b hb

-- What is nearer to the roots than the head of the queue is done.
theorem nearer (h : Frontier root edge done (a :: queue))
    (hb : ∀ n, Chain root edge n a → ∃ m < n, Chain root edge m b) : b ∈ done :=
  have ⟨k, _, _, hl⟩ := h.level_cons
  have ⟨m, hm, hb⟩ := hb k (hl.near a List.mem_cons_self)
  hl.visited b m hb hm

theorem finished (h : Frontier root edge done []) (ha : Chain root edge n a) : a ∈ done := by
  have ⟨k, front, next, hl⟩ := h.level
  have hf : front = [] := (List.append_eq_nil_iff.mp hl.split.symm).1
  induction ha
  case root a hr =>
    rcases Nat.eq_zero_or_pos k with hk | hk
    · subst hf hk
      simpa using hl.reached a (.root hr)
    · exact hl.visited a 0 (.root hr) hk
  case step a b _ he ih => simpa using h.closed a ih b he

end Frontier
end BreadthFirst
