import Mathlib.Algebra.Order.Floor.Semiring
import Mathlib.Algebra.Order.Field.Basic
import Mathlib.Algebra.Order.Floor.Ring
import Mathlib.Data.List.Pairwise
import Mathlib.Tactic.Linarith
import Mathlib.Tactic.Ring

-- A cut of an interval into adjacent ones, and the lines of a grid which cut it.
namespace Cuts

section

variable {α : Type*} [LinearOrder α]

-- The parts are listed from left to right.
inductive Cut : α → α → List (α × α) → Prop
  | whole {lo hi : α} (h : lo < hi) : Cut lo hi [(lo, hi)]
  | part {lo mid hi : α} {cuts : List (α × α)} (h : lo < mid) (c : Cut mid hi cuts) : Cut lo hi ((lo, mid) :: cuts)

variable {lo hi x : α} {cuts : List (α × α)}

namespace Cut

theorem lt (c : Cut lo hi cuts) : lo < hi := by
  induction c
  case whole h       => exact h
  case part h _ ih => exact h.trans ih

theorem part_lt (c : Cut lo hi cuts) : ∀ part ∈ cuts, part.1 < part.2 := by
  induction c
  case whole h => simpa using h
  case part h _ ih => simpa [h] using ih

theorem within (c : Cut lo hi cuts) : ∀ part ∈ cuts, lo ≤ part.1 ∧ part.2 ≤ hi := by
  induction c
  case whole => simp
  case part h c ih =>
    intro part hp
    cases List.mem_cons.mp hp
    case inl he => exact he ▸ ⟨le_rfl, c.lt.le⟩
    case inr hp => exact ⟨h.le.trans (ih part hp).1, (ih part hp).2⟩

theorem covers (c : Cut lo hi cuts) : (∃ part ∈ cuts, part.1 ≤ x ∧ x ≤ part.2) ↔ lo ≤ x ∧ x ≤ hi := by
  constructor
  case mp =>
    intro ⟨piece, hp, hl, hr⟩
    exact ⟨(c.within piece hp).1.trans hl, hr.trans (c.within piece hp).2⟩
  case mpr =>
    intro ⟨hl, hr⟩
    induction c
    case whole => simp [hl, hr]
    case part lo mid hi cuts h c ih =>
      cases le_total x mid
      case inl hm => exact ⟨_, .head _, hl, hm⟩
      case inr hm =>
        have ⟨piece, hp, hx⟩ := ih hm hr
        exact ⟨piece, .tail _ hp, hx⟩

theorem adjacent (c : Cut lo hi cuts) : cuts.Pairwise fun p q => p.2 ≤ q.1 := by
  induction c
  case whole => simp
  case part c ih => exact ih.cons fun part hp => (c.within part hp).1

end Cut

end

-- The lines of a grid up to `stop`. There is no end of them if they do not move on.
def lines? {α : Type*} [Field α] [LinearOrder α] [IsStrictOrderedRing α] [FloorRing α] (increment stop : α) (x : α) :
    Option (List α) :=
  if x < stop then
    if 0 < increment then
      (x :: ·) <$> lines? increment stop (x + increment)
    else
      none
  else
    some []
termination_by ⌈(stop - x) / increment⌉₊
decreasing_by
  rename_i hx hi
  have hpos : 0 < (stop - x) / increment := div_pos (sub_pos.mpr hx) hi
  have hstep : (stop - (x + increment)) / increment = (stop - x) / increment - 1 := by
    rw [← sub_sub, sub_div, div_self hi.ne']
  rw [hstep, Nat.ceil_sub_one]
  exact Nat.sub_lt (Nat.ceil_pos.mpr hpos) one_pos

section

variable {α : Type*} [Field α] [LinearOrder α] [IsStrictOrderedRing α] [FloorRing α]
variable {increment start lo hi x : α} {lines : List α}

-- What the cell that starts at `x` has in common with an interval.
def clip (lo hi increment x : α) : α × α :=
  (max x lo, min hi (x + increment))

theorem lines?_cut (hi' : 0 < increment) (hx : x < hi) (hl : lo < hi) (hc : lo < x + increment) :
    ∃ lines, lines? increment hi x = some lines ∧ Cut (max x lo) hi (lines.map (clip lo hi increment)) ∧
      ∀ line ∈ lines, ∃ n : ℕ, line = x + n * increment := by
  induction x using lines?.induct increment hi with
  | case1 x _ _ ih =>
    rw [lines?, if_pos hx, if_pos hi']
    by_cases hnext : x + increment < hi
    case pos =>
      have ⟨lines, hlines, hcut, hmul⟩ := ih hnext (by linarith)
      refine ⟨x :: lines, by simp [hlines], ?_, ?_⟩
      · rw [max_eq_left hc.le] at hcut
        simp only [List.map_cons, clip, min_eq_right hnext.le]
        exact .part (max_lt (by linarith) hc) hcut
      · intro line hline
        cases List.mem_cons.mp hline
        case inl he => exact ⟨0, by simp [he]⟩
        case inr hline =>
          have ⟨n, hn⟩ := hmul line hline
          exact ⟨n + 1, by rw [hn]; push_cast; ring⟩
    case neg =>
      have hle := not_lt.mp hnext
      refine ⟨[x], by rw [lines?, if_neg hnext]; rfl, ?_, by simp⟩
      simp only [List.map_cons, List.map_nil, clip, min_eq_left hle]
      exact .whole (max_lt hx hl)
  | case2 x _ hn => exact absurd hi' hn
  | case3 x hn => exact absurd hx hn

-- The grid is anchored at `anchor`, and the first of its lines is the last one up to the interval.
theorem grid_cut (anchor : α) (hi' : 0 < increment) (hl : lo < hi) :
    ∃ lines, lines? increment hi (anchor + ⌊(lo - anchor) / increment⌋ * increment) = some lines ∧
      Cut lo hi (lines.map (clip lo hi increment)) ∧ ∀ line ∈ lines, ∃ n : ℤ, line = anchor + n * increment := by
  have hle : anchor + ⌊(lo - anchor) / increment⌋ * increment ≤ lo := by
    have := (le_div_iff₀ hi').mp (Int.floor_le ((lo - anchor) / increment))
    linarith
  have hlt : lo < anchor + ⌊(lo - anchor) / increment⌋ * increment + increment := by
    have := (div_lt_iff₀ hi').mp (Int.lt_floor_add_one ((lo - anchor) / increment))
    linarith
  have ⟨lines, hlines, hcut, hmul⟩ := lines?_cut hi' (hle.trans_lt hl) hl hlt
  refine ⟨lines, hlines, by rwa [max_eq_right hle] at hcut, fun line h => ?_⟩
  have ⟨n, hn⟩ := hmul line h
  exact ⟨⌊(lo - anchor) / increment⌋ + n, by rw [hn]; push_cast; ring⟩

end

end Cuts
