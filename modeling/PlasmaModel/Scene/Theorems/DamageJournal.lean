import Mathlib.Data.Set.Function
import PlasmaModel.Region.Theorems.Operations

namespace KWin

-- The last damage regions of an output, the newest one first.
structure DamageJournal where
  log      : List Region := []
  capacity : Int := 10

namespace DamageJournal

def setCapacity (journal : DamageJournal) (capacity : Int) : DamageJournal :=
  { journal with capacity }

-- There is no last region to remove in an empty log.
def makeRoom (capacity : Int) (log : List Region) : Option (List Region) :=
  if log.length < capacity then
    some log
  else if log.isEmpty then
    none
  else
    makeRoom capacity log.dropLast
termination_by log.length
decreasing_by
  have hpos := List.length_pos_iff.mpr (by simpa using ‹¬log.isEmpty›)
  rw [List.length_dropLast]
  exact Nat.sub_lt hpos Nat.one_pos

def add (journal : DamageJournal) (region : Region) : Option DamageJournal :=
  (makeRoom journal.capacity journal.log).map fun log => { journal with log := region :: log }

def clear (journal : DamageJournal) : DamageJournal :=
  { journal with log := [] }

def accumulate (journal : DamageJournal) (bufferAge : Int) (fallback : Region) : Region :=
  if 0 < bufferAge ∧ bufferAge ≤ journal.log.length then
    (journal.log.take (bufferAge - 1).toNat).foldl Region.united {}
  else
    fallback

end DamageJournal

variable {Color : Type}

instance (rect : Rect) (p : Point) : Decidable (p ∈ rect) :=
  inferInstanceAs (Decidable (rect.containsPoint p = true))

instance (r : Region) (p : Point) : Decidable (p ∈ r) :=
  inferInstanceAs (Decidable (∃ rect ∈ r.rects, p ∈ rect))

-- A buffer after some of its pixels have been copied from a frame.
def repainted (region : Region) (frame buffer : Point → Color) : Point → Color :=
  fun p => if p ∈ region then frame p else buffer p

-- Two frames show the same on the output, but for the damage.
def DiffersInside (output : Set Point) (damage : Region) (frame previous : Point → Color) : Prop :=
  ∀ p ∈ output, p ∉ damage → frame p = previous p

namespace DamageJournal

-- The frames that have been presented, the newest one first, with the journal of their damage.
inductive Presented (output : Set Point) : List (Point → Color) → DamageJournal → Prop
  | start : Presented output [] {}
  | frame {frames journal frame damage journal'} : Presented output frames journal → damage.WellFormed →
      (∀ previous ∈ frames.head?, DiffersInside output damage frame previous) →
      journal.add damage = some journal' → Presented output (frame :: frames) journal'
  | setCapacity {frames journal capacity} : Presented output frames journal → 1 ≤ capacity →
      Presented output frames (journal.setCapacity capacity)
  | clear {frames journal} : Presented output frames journal → Presented output frames journal.clear

-- The log has the damage of the last frames.
structure Recorded (output : Set Point) (frames : List (Point → Color)) (journal : DamageJournal) : Prop where
  capacity   : 1 ≤ journal.capacity
  length     : journal.log.length ≤ frames.length
  wellFormed : ∀ damage ∈ journal.log, damage.WellFormed
  inside     : ∀ (i : Nat) damage frame previous, journal.log[i]? = some damage → frames[i]? = some frame →
    frames[i + 1]? = some previous → DiffersInside output damage frame previous

variable {output : Set Point} {frames : List (Point → Color)} {journal journal' : DamageJournal} {capacity : Int}
variable {log log' : List Region} {region damage fallback : Region} {p : Point}

theorem makeRoom_prefix (h : makeRoom capacity log = some log') : log' <+: log := by
  induction log using List.reverseRecOn
  case nil =>
    rw [makeRoom] at h
    split at h
    case isTrue =>
      cases h
      exact List.prefix_rfl
    case isFalse => cases h
  case append_singleton log region ih =>
    rw [makeRoom] at h
    split at h
    case isTrue =>
      cases h
      exact List.prefix_rfl
    case isFalse =>
      rw [if_neg (by simp), List.dropLast_concat] at h
      exact (ih h).trans (List.prefix_append _ _)

theorem makeRoom_isSome (hc : 1 ≤ capacity) (log : List Region) : (makeRoom capacity log).isSome := by
  induction log using List.reverseRecOn
  case nil =>
    rw [makeRoom, if_pos (Int.lt_of_add_one_le (by simpa using hc))]
    rfl
  case append_singleton log region ih =>
    rw [makeRoom]
    split
    case isTrue => rfl
    case isFalse =>
      rw [if_neg (by simp), List.dropLast_concat]
      exact ih

theorem Recorded.frame {frame : Point → Color} (h : Recorded output frames journal) (hw : damage.WellFormed)
    (hd : ∀ previous ∈ frames.head?, DiffersInside output damage frame previous)
    (ha : journal.add damage = some journal') : Recorded output (frame :: frames) journal' := by
  have ⟨log, hlog, ha⟩ := Option.map_eq_some_iff.mp ha
  have hsuffix := makeRoom_prefix hlog
  subst ha
  constructor
  case capacity => exact h.capacity
  case length => exact Nat.succ_le_succ (hsuffix.length_le.trans h.length)
  case wellFormed =>
    intro d hd
    cases List.mem_cons.mp hd
    case inl hd => exact hd ▸ hw
    case inr hd => exact h.wellFormed d (hsuffix.subset hd)
  case inside =>
    intro i d f previous hi hf hp
    cases i
    case zero =>
      cases hi
      cases hf
      exact hd previous (List.head?_eq_getElem? ▸ hp)
    case succ i =>
      have hi : log[i]? = some d := hi
      have ⟨hlt, he⟩ := List.getElem?_eq_some_iff.mp hi
      exact h.inside i d f previous ((List.prefix_iff_getElem?.mp hsuffix i hlt).trans (congrArg some he)) hf hp

theorem Presented.recorded (h : Presented output frames journal) : Recorded output frames journal := by
  induction h
  case start => exact ⟨by decide, le_rfl, nofun, nofun⟩
  case frame hw hd ha ih => exact ih.frame hw hd ha
  case setCapacity hc ih => exact { ih with capacity := hc }
  case clear ih => exact ⟨ih.capacity, Nat.zero_le _, nofun, nofun⟩

theorem foldl_united_draws {regions : List Region} (hr : region.WellFormed) (h : ∀ d ∈ regions, d.WellFormed) :
    (regions.foldl Region.united region).Draws fun p => p ∈ region ∨ ∃ d ∈ regions, p ∈ d := by
  induction regions generalizing region
  case nil => exact ⟨hr, fun p => by simp⟩
  case cons d regions ih =>
    have ⟨hw, hm⟩ := Region.united_draws hr (h d List.mem_cons_self)
    have ⟨hw, hm'⟩ := ih hw fun d hd => h d (List.mem_cons_of_mem _ hd)
    refine ⟨hw, fun p => (hm' p).trans ?_⟩
    dsimp only
    rw [hm p]
    simp [or_assoc]

-- What is not in the damage since then is as it was.
theorem Recorded.unchanged {frame previous : Point → Color} {k : Nat} (h : Recorded output frames journal)
    (hp : p ∈ output) (hnot : ∀ d ∈ journal.log.take k, p ∉ d) (hk : k ≤ journal.log.length)
    (hf : frames[0]? = some frame) (hprevious : frames[k]? = some previous) : frame p = previous p := by
  induction k generalizing previous
  case zero =>
    cases hf.symm.trans hprevious
    rfl
  case succ k ih =>
    have hlt : k < frames.length := hk.trans h.length
    have hmid := List.getElem?_eq_getElem hlt
    have hlog := List.getElem?_eq_getElem (Nat.lt_of_succ_le hk)
    have hinside := h.inside k _ _ previous hlog hmid hprevious
    have hmem : journal.log[k] ∈ journal.log.take (k + 1) := List.mem_take_iff_getElem.mpr ⟨k, by omega, rfl⟩
    have hsame := ih (fun d hd => hnot d (List.take_subset_take_left _ (Nat.le_succ k) hd)) (Nat.le_of_succ_le hk) hmid
    exact hsame.trans (hinside p hp (hnot _ hmem))

-- A buffer of any age shows the frame once what the journal accumulates is repainted, and the new damage.
theorem repaint_by_age (output : Set Point) (frames : List (Point → Color)) (journal : DamageJournal)
    (frame buffer : Point → Color) (damage fallback : Region) (bufferAge : Int)
    (h : Presented output frames journal) (hdamage : damage.WellFormed) (hfallback : fallback.WellFormed)
    (hinside : ∀ previous ∈ frames.head?, DiffersInside output damage frame previous)
    (hcover : ∀ p ∈ output, p ∈ fallback)
    (hbuffer : ∀ (k : Nat) previous, bufferAge = k + 1 → frames[k]? = some previous → ∀ p ∈ output, buffer p = previous p) :
    (∀ p ∈ output, repainted ((journal.accumulate bufferAge fallback).united damage) frame buffer p = frame p) ∧
      (journal.add damage).isSome := by
  have hr := h.recorded
  refine ⟨fun p hp => ?_, by rw [add, Option.isSome_map]; exact makeRoom_isSome hr.capacity _⟩
  rw [repainted]
  split
  case isTrue => rfl
  case isFalse hnot =>
    rw [accumulate] at hnot
    split at hnot
    case isFalse =>
      have ⟨_, hm⟩ := Region.united_draws hfallback hdamage
      exact absurd ((hm p).mpr (.inl (hcover p hp))) hnot
    case isTrue hage =>
      have ⟨hpos, hle⟩ := hage
      have ⟨k, hk⟩ := Int.eq_ofNat_of_zero_le (Int.sub_nonneg_of_le (Int.add_one_le_of_lt hpos))
      have hage : bufferAge = k + 1 := by omega
      subst hage
      rw [Int.add_sub_cancel, Int.toNat_natCast] at hnot
      have ⟨hw, hm⟩ := foldl_united_draws Region.wellFormed_empty
        fun d hd => hr.wellFormed d (List.mem_of_mem_take (i := k) hd)
      have ⟨_, hm'⟩ := Region.united_draws hw hdamage
      have ⟨hlog, hnot⟩ := not_or.mp fun h => hnot ((hm' p).mpr h)
      have hlt : k < frames.length := by
        have := hr.length
        omega
      have hnonempty := List.getElem?_eq_getElem (Nat.zero_lt_of_lt hlt)
      have hold := List.getElem?_eq_getElem hlt
      calc
        buffer p = frames[k] p := hbuffer k _ rfl hold p hp
        _ = frames[0] p := (hr.unchanged hp (fun d hd hpd => hlog ((hm p).mpr (.inr ⟨d, hd, hpd⟩))) (by omega) hnonempty hold).symm
        _ = frame p := (hinside _ (List.head?_eq_getElem? ▸ hnonempty) p hp hnot).symm

-- A square on a small output turns from one color to another, in a buffer that still shows the previous frame.

def smallOutput : Region :=
  .ofRect ⟨0, 0, 10, 10⟩

def square : Region :=
  .ofRect ⟨2, 2, 5, 5⟩

theorem smallOutput_presented : Presented {p | p ∈ smallOutput} [fun _ => false] { log := [smallOutput] } :=
  .frame .start (by decide : smallOutput.WellFormed) nofun (by simp [add, makeRoom])

theorem repaint_by_age_square :
    (∀ p ∈ {p | p ∈ smallOutput}, repainted ((accumulate { log := [smallOutput] } 1 smallOutput).united square)
      (fun p => decide (p ∈ square)) (fun _ => false) p = decide (p ∈ square)) ∧
      (add { log := [smallOutput] } square).isSome :=
  repaint_by_age _ _ _ _ _ square smallOutput 1 smallOutput_presented (by decide) (by decide)
    (fun previous h p _ hnot => by
      cases h
      exact decide_eq_false hnot)
    (fun p hp => hp) (fun k previous hk h p _ => by
      cases (by omega : k = 0)
      cases h
      rfl)

end DamageJournal
end KWin
