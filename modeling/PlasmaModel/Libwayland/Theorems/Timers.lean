import Mathlib.Data.List.Perm.Subperm
import PlasmaModel.Lib.Runs
import PlasmaModel.Libwayland.Theorems.TimerHeap
import PlasmaModel.Libwayland.Timers

namespace Libwayland

-- The timer of the kernel goes off when the first timer of the heap is due, or earlier.
def TimerHeap.Covered (h : TimerHeap) (fd : TimerFd) : Prop :=
  ∀ root, h.data[0]? = some root → ∃ time, fd = .set time ∧ time ≤ h.deadline root

namespace Timers

variable {s s' : Timers} {armed : ℕ → Option ℤ} {id : ℕ}

structure Inv (s : Timers) (armed : ℕ → Option ℤ) : Prop where
  consistent : s.heap.Consistent
  ordered    : s.heap.Ordered
  armed      : ∀ t, armed t = if t ∈ s.heap.data then some (s.heap.deadline t) else none
  live       : ∀ t ∈ s.heap.data, t ∈ s.live
  nodup      : s.live.Nodup
  fresh      : ∀ t ∈ s.live, t < s.nextSource
  count      : s.count = s.live.length
  space      : s.count ≤ s.space
  clock      : 0 ≤ s.clock
  future     : ∀ t ∈ s.heap.data, 0 < s.heap.deadline t
  covered    : s.heap.Covered s.fd

theorem inv_start : Inv {} fun _ => none where
  consistent := ⟨nofun, fun _ => .inl rfl⟩
  ordered    := fun _ _ h => absurd h (Nat.not_lt_zero _)
  armed      := fun _ => rfl
  live       := nofun
  nodup      := .nil
  fresh      := nofun
  count      := rfl
  space      := Nat.le_refl 0
  clock      := Int.le_refl 0
  future     := nofun
  covered    := nofun

section

variable {h h' : TimerHeap} {fd : TimerFd} {now msDelay : ℤ} {t : ℕ}

theorem covered_of_mem (hc : h.Consistent) (ho : h.Ordered) (hf : h.Covered fd) (ht : t ∈ h.data) :
    ∃ time, fd = .set time ∧ time ≤ h.deadline t := by
  have ⟨i, _, hd⟩ := hc.idx ht
  have hlen := (List.getElem?_eq_some_iff.mp hd).1
  have hroot := List.getElem?_eq_getElem (show 0 < h.data.length by omega)
  have ⟨time, hfd, hle⟩ := hf _ hroot
  exact ⟨time, hfd, hle.trans (ho.root_le hroot hd)⟩

-- When the first timer is not the one that was updated, it was in the heap before.
theorem covered_of_updates (hc : h.Consistent) (ho : h.Ordered) (hf : h.Covered fd)
    (hu : h.Updates h' id now msDelay) (hroot : h'.data[0]? ≠ some id) : h'.Covered fd := by
  intro root hd
  have hne : root ≠ id := fun heq => hroot (heq ▸ hd)
  have hm := (hu.mem root).mp (List.mem_of_getElem? hd)
  rw [if_neg hne] at hm
  rw [hu.others root hne]
  exact covered_of_mem hc ho hf hm

end

theorem updateTimer_spec {now : ℤ} (id : ℕ) (msDelay : ℤ) (hi : Inv s armed) (hnow : 0 ≤ now) :
    ∃ fd, s.updateTimer id now msDelay = { s with heap := s.heap.update id now msDelay, fd } ∧
    (s.heap.update id now msDelay).Covered fd := by
  have hu := TimerHeap.update_updates id now msDelay hi.consistent hi.ordered
  have hcov := covered_of_updates hi.consistent hi.ordered hi.covered hu
  unfold updateTimer
  simp only
  split
  case isTrue hpos =>
    split
    case isTrue h0 =>
      refine ⟨_, rfl, fun root hd => ?_⟩
      have hroot : root = id := by
        cases hu.consistent.armed id with
        | inl hnone => omega
        | inr hi =>
          have ⟨i, hi, hdi⟩ := hi
          have hi : i = 0 := by omega
          rw [hi, hd] at hdi
          exact Option.some.inj hdi
      rw [hroot, hu.deadline hpos]
      exact ⟨_, if_neg (by omega), le_rfl⟩
    case isFalse h0 => exact ⟨_, rfl, hcov fun hd => h0 (hu.consistent.at_eq hd)⟩
  case isFalse hneg =>
    have hroot : (s.heap.update id now msDelay).data[0]? ≠ some id := by
      intro hd
      have := (hu.mem id).mp (List.mem_of_getElem? hd)
      rw [if_pos rfl] at this
      exact hneg this
    split
    case isTrue hnone =>
      refine ⟨_, rfl, fun root hd => ?_⟩
      rw [List.eq_nil_of_length_eq_zero hnone.2] at hd
      cases hd
    case isFalse => exact ⟨_, rfl, hcov hroot⟩

theorem inv_updateTimer {now : ℤ} (msDelay : ℤ) (hi : Inv s armed) (hnow : 0 ≤ now) (hid : id ∈ s.live) :
    Inv (s.updateTimer id now msDelay) (Timers.rearm armed (.update id now msDelay)) := by
  have ⟨fd, heq, hcov⟩ := updateTimer_spec id msDelay hi hnow
  have hu := TimerHeap.update_updates id now msDelay hi.consistent hi.ordered
  rw [heq]
  refine ⟨hu.consistent, hu.ordered, fun t => ?_, fun t ht => ?_, hi.nodup, hi.fresh, hi.count, hi.space, hi.clock,
    fun t ht => ?_, hcov⟩
  · dsimp only [rearm]
    rw [Function.update_apply]
    by_cases ht : t = id
    case pos =>
      have hm := hu.mem id
      rw [if_pos rfl] at hm
      rw [if_pos ht, ht]
      split
      case isTrue hpos => rw [if_pos (hm.mpr hpos), hu.deadline hpos]
      case isFalse hneg => rw [if_neg fun h => hneg (hm.mp h)]
    case neg =>
      have hm := hu.mem t
      rw [if_neg ht] at hm
      rw [if_neg ht, hi.armed, hu.others t ht]
      simp only [hm]
  · have hm := (hu.mem t).mp ht
    split at hm
    case isTrue heq => exact heq ▸ hid
    case isFalse => exact hi.live t hm
  · have hm := (hu.mem t).mp ht
    split at hm
    case isTrue heq =>
      dsimp only
      rw [heq, hu.deadline hm]
      omega
    case isFalse hne =>
      dsimp only
      rw [hu.others t hne]
      exact hi.future t hm

theorem inv_removeTimer {shrinks : Bool} (hi : Inv s armed) (hid : id ∈ s.live) :
    Inv (s.removeTimer id shrinks) (Timers.rearm armed (.remove id shrinks)) := by
  have ⟨fd, heq, _⟩ := updateTimer_spec id 0 hi (Int.le_refl 0)
  have hu := TimerHeap.update_updates id 0 0 hi.consistent hi.ordered
  have hi' := inv_updateTimer 0 hi (Int.le_refl 0) hid
  have hlen := List.length_erase_of_mem hid
  have hpos := List.length_pos_of_mem hid
  have hlive : ∀ t ∈ (s.heap.update id 0 0).data, t ∈ s.live.erase id := by
    intro t ht
    have hm := (hu.mem t).mp ht
    split at hm
    case isTrue => contradiction
    case isFalse hne => exact (List.mem_erase_of_ne hne).mpr (hi.live t hm)
  have hfresh : ∀ t ∈ s.live.erase id, t < s.nextSource := fun t ht => hi.fresh t (List.mem_of_mem_erase ht)
  have hcount := hi.count
  have hspace := hi.space
  unfold removeTimer unreserve
  rw [heq] at hi' ⊢
  simp only
  split
  case isTrue hs =>
    have hs := hs.2.1
    exact ⟨hi'.consistent, hi'.ordered, hi'.armed, hlive, hi.nodup.erase id, hfresh, by dsimp only; omega,
      by dsimp only at hs ⊢; omega, hi.clock, hi'.future, hi'.covered⟩
  case isFalse =>
    exact ⟨hi'.consistent, hi'.ordered, hi'.armed, hlive, hi.nodup.erase id, hfresh, by dsimp only; omega,
      by dsimp only; omega, hi.clock, hi'.future, hi'.covered⟩

theorem inv_addTimer {opens allocates grows : Bool} (hi : Inv s armed) :
    Inv (s.addTimer opens allocates grows) armed := by
  have hopen {s' : Timers} (h : s.ensureTimerfd opens = some s') : Inv s' armed := by
    unfold ensureTimerfd at h
    split at h
    case isTrue => cases h; exact hi
    case isFalse hclosed =>
      split at h
      case isFalse => cases h
      case isTrue =>
        cases h
        have hnone : ∀ root, s.heap.data[0]? ≠ some root := by
          intro root hd
          have ⟨time, hfd, _⟩ := hi.covered root hd
          exact hclosed (by rw [hfd]; nofun)
        exact ⟨hi.consistent, hi.ordered, hi.armed, hi.live, hi.nodup, hi.fresh, hi.count, hi.space, hi.clock,
          hi.future, fun root hd => absurd hd (hnone root)⟩
  have hgrow {s s' : Timers} (hi : Inv s armed) (h : s.reserve grows = some s') :
      Inv { s' with live := s'.nextSource :: s'.live, nextSource := s'.nextSource + 1 } armed := by
    have hnodup := List.nodup_cons.mpr ⟨fun hm => absurd (hi.fresh _ hm) (Nat.lt_irrefl _), hi.nodup⟩
    have hfresh : ∀ t ∈ s.nextSource :: s.live, t < s.nextSource + 1 := by
      intro t ht
      cases List.mem_cons.mp ht with
      | inl heq => omega
      | inr ht => exact Nat.lt_succ_of_lt (hi.fresh t ht)
    have hcount := hi.count
    have hspace := hi.space
    have hlive := fun t ht => List.mem_cons_of_mem s.nextSource (hi.live t ht)
    unfold reserve at h
    split at h
    case isTrue hfull =>
      split at h
      case isFalse => cases h
      case isTrue =>
        cases h
        refine ⟨hi.consistent, hi.ordered, hi.armed, hlive, hnodup, hfresh, ?_, ?_, hi.clock, hi.future, hi.covered⟩
        · simp [hcount]
        · dsimp only
          split <;> omega
    case isFalse hfits =>
      cases h
      refine ⟨hi.consistent, hi.ordered, hi.armed, hlive, hnodup, hfresh, ?_, ?_, hi.clock, hi.future, hi.covered⟩
      · simp [hcount]
      · dsimp only
        omega
  unfold addTimer
  split
  case h_1 => exact hi
  case h_2 _ s' h =>
    have hi := hopen h
    split
    case isFalse => exact hi
    case isTrue =>
      split
      case h_1 => exact hi
      case h_2 _ _ h => exact hgrow hi h

-- The timers that have been removed are passed over.
theorem runDue_spec (s : Timers) (due : List ℕ) : ∃ skipped, (∀ t ∈ skipped, t ∉ s.live) ∧
    (due = skipped ∧ s.runDue due = { s with listCursor := [] } ∨
    ∃ id rest, due = skipped ++ id :: rest ∧ id ∈ s.live ∧
      s.runDue due = { s with listCursor := id :: rest, log := .called id :: s.log }) := by
  induction due with
  | nil => exact ⟨[], nofun, .inl ⟨rfl, rfl⟩⟩
  | cons id rest ih =>
    unfold runDue
    split
    case isTrue hid => exact ⟨[], nofun, .inr ⟨id, rest, rfl, hid, rfl⟩⟩
    case isFalse hid =>
      have ⟨skipped, hs, h⟩ := ih
      refine ⟨id :: skipped, List.forall_mem_cons.mpr ⟨hid, hs⟩, ?_⟩
      cases h with
      | inl h => exact .inl ⟨by rw [h.1], h.2⟩
      | inr h =>
        have ⟨id', rest', heq, h⟩ := h
        exact .inr ⟨id', rest', by rw [heq]; rfl, h⟩

theorem inv_runDue (due : List ℕ) (hi : Inv s armed) : Inv (s.runDue due) armed := by
  have hframe (listCursor : List ℕ) (log : List TimerRecord) : Inv { s with listCursor, log } armed :=
    ⟨hi.consistent, hi.ordered, hi.armed, hi.live, hi.nodup, hi.fresh, hi.count, hi.space, hi.clock, hi.future,
      hi.covered⟩
  have ⟨_, _, h⟩ := s.runDue_spec due
  cases h with
  | inl h => exact h.2 ▸ hframe [] s.log
  | inr h =>
    have ⟨id, rest, _, _, h⟩ := h
    exact h ▸ hframe _ _

theorem dispatch_spec (now : ℤ) (hi : Inv s armed) : ∃ fd, (s.heap.takeDue now).2.Covered fd ∧
    s.dispatch now = runDue { s with heap := (s.heap.takeDue now).2, taken := (s.heap.takeDue now).1, log := [], fd }
      (s.heap.takeDue now).1 := by
  have ht := TimerHeap.takeDue_spec now hi.consistent
  have hs := TimerHeap.takeDue_inOrder now hi.consistent hi.ordered
  unfold dispatch
  simp only
  generalize s.heap.takeDue now = r at ht hs ⊢
  split
  case h_1 hd => exact ⟨.cleared, fun root h => absurd h (by simp [hd]), rfl⟩
  case h_2 first rest hd =>
    have hm : first ∈ r.2.data := by simp [hd]
    have hpos : 0 < r.2.deadline first := by
      rw [hs.deadline first hm]
      exact hi.future first ((ht.mem first).mp hm).1
    refine ⟨.set (r.2.deadline first), fun root h => ?_, ?_⟩
    · rw [hd] at h
      cases h
      exact ⟨_, rfl, le_rfl⟩
    · rw [setTimer, if_neg (by omega)]

theorem inv_dispatch (now : ℤ) (hi : Inv s armed) :
    Inv (s.dispatch now) (Timers.rearm armed (.dispatch now)) := by
  have ⟨fd, hcov, heq⟩ := dispatch_spec now hi
  have ht := TimerHeap.takeDue_spec now hi.consistent
  have hs := TimerHeap.takeDue_inOrder now hi.consistent hi.ordered
  rw [heq]
  refine inv_runDue _ ⟨ht.consistent, hs.ordered, fun t => ?_, fun t hm => ?_, hi.nodup, hi.fresh, hi.count, hi.space,
    hi.clock, fun t hm => ?_, hcov⟩
  · dsimp only [rearm]
    rw [hi.armed]
    by_cases hm : t ∈ (s.heap.takeDue now).2.data
    case pos =>
      have hlt := hs.rest t hm
      rw [hs.deadline t hm] at hlt
      rw [if_pos ((ht.mem t).mp hm).1, if_pos hm, hs.deadline t hm]
      simp [hlt]
    case neg =>
      rw [if_neg hm]
      split
      case isFalse => rfl
      case isTrue hd =>
        have hle := hs.due t (not_not.mp fun hn => hm ((ht.mem t).mpr ⟨hd, hn⟩))
        simp [hle]
  · exact hi.live t ((ht.mem t).mp hm).1
  · dsimp only
    rw [hs.deadline t hm]
    exact hi.future t ((ht.mem t).mp hm).1

theorem act_cases {event : TimerEvent} (h : s.act event = some s') :
    (∃ opens allocates grows, event = .add opens allocates grows ∧ s' = s.addTimer opens allocates grows) ∨
    (∃ id now msDelay, event = .update id now msDelay ∧ id ∈ s.live ∧ s.clock ≤ now ∧
      s' = { s.updateTimer id now msDelay with clock := now }) ∨
    (∃ id shrinks, event = .remove id shrinks ∧ id ∈ s.live ∧ s' = s.removeTimer id shrinks) ∨
    (∃ now, event = .dispatch now ∧ s.listCursor = [] ∧ s.clock ≤ now ∧
      s' = { s.dispatch now with clock := now }) ∨
    ∃ id rest, event = .returned ∧ s.listCursor = id :: rest ∧ s' = s.runDue rest := by
  cases event with
  | add opens allocates grows => exact .inl ⟨_, _, _, rfl, (Option.some.inj h).symm⟩
  | update id now msDelay =>
    dsimp only [act] at h
    split at h
    case isTrue ha => exact .inr (.inl ⟨_, _, _, rfl, ha.1, ha.2, (Option.some.inj h).symm⟩)
    case isFalse => cases h
  | remove id shrinks =>
    dsimp only [act] at h
    split at h
    case isTrue ha => exact .inr (.inr (.inl ⟨_, _, rfl, ha, (Option.some.inj h).symm⟩))
    case isFalse => cases h
  | dispatch now =>
    dsimp only [act] at h
    split at h
    case isTrue ha => exact .inr (.inr (.inr (.inl ⟨_, rfl, ha.1, ha.2.2, (Option.some.inj h).symm⟩)))
    case isFalse => cases h
  | returned =>
    dsimp only [act] at h
    split at h
    case h_1 => cases h
    case h_2 id rest hl => exact .inr (.inr (.inr (.inr ⟨id, rest, rfl, hl, (Option.some.inj h).symm⟩)))

theorem inv_act {event : TimerEvent} (hi : Inv s armed) (h : s.act event = some s') :
    Inv s' (Timers.rearm armed event) := by
  have htime {s : Timers} {armed : ℕ → Option ℤ} (clock : ℤ) (hi : Inv s armed) (h : 0 ≤ clock) :
      Inv { s with clock } armed :=
    ⟨hi.consistent, hi.ordered, hi.armed, hi.live, hi.nodup, hi.fresh, hi.count, hi.space, h, hi.future, hi.covered⟩
  obtain ⟨_, _, _, rfl, rfl⟩ | ⟨id, now, _, rfl, hid, hnow, rfl⟩ | ⟨id, _, rfl, hid, rfl⟩ | ⟨now, rfl, _, hnow, rfl⟩ |
    ⟨_, _, rfl, _, rfl⟩ := act_cases h
  · exact inv_addTimer hi
  · have hnow := hi.clock.trans hnow
    exact htime now (inv_updateTimer _ hi hnow hid) hnow
  · exact inv_removeTimer hi hid
  · exact htime now (inv_dispatch now hi) (hi.clock.trans hnow)
  · exact inv_runDue _ hi

-- The calls in the order in which they were made.
def calls : List TimerRecord → List ℕ
  | [] => []
  | .called id :: log => calls log ++ [id]
  | .removed _ :: log => calls log

-- The timers in `come` have had their turn since `taken` were taken off the heap.
structure Serves (taken come : List ℕ) (log : List TimerRecord) : Prop where
  in_order : (calls log).Sublist come
  standing : ∀ later t earlier, log = later ++ .called t :: earlier → .removed t ∉ earlier
  turn     : ∀ t ∈ come, .called t ∈ log ∨ .removed t ∈ log
  waited   : ∀ later t earlier before after, log = later ++ .called t :: earlier → taken = before ++ t :: after →
    ∀ u ∈ before, .called u ∈ earlier ∨ .removed u ∈ earlier

namespace Serves

variable {taken come : List ℕ} {log : List TimerRecord}

theorem start : Serves taken [] [] :=
  ⟨.slnil, fun later t earlier h => absurd h (by simp), nofun, fun later t earlier _ _ h => absurd h (by simp)⟩

variable (h : Serves taken come log)
include h

theorem skip {skipped : List ℕ} (hs : ∀ t ∈ skipped, .removed t ∈ log) : Serves taken (come ++ skipped) log := by
  refine ⟨h.in_order.trans (List.sublist_append_left _ _), h.standing, fun t ht => ?_, h.waited⟩
  cases List.mem_append.mp ht with
  | inl ht => exact h.turn t ht
  | inr ht => exact .inr (hs t ht)

theorem removed (id : ℕ) : Serves taken come (.removed id :: log) := by
  refine ⟨h.in_order, fun later t earlier heq => ?_, fun t ht => ?_, fun later t earlier before after heq ht => ?_⟩
  · cases later with
    | nil => cases heq
    | cons _ later =>
      injection heq with _ heq
      exact h.standing later t earlier heq
  · exact (h.turn t ht).imp (List.mem_cons_of_mem _) (List.mem_cons_of_mem _)
  · cases later with
    | nil => cases heq
    | cons _ later =>
      injection heq with _ heq
      exact h.waited later t earlier before after heq ht

theorem call {rest : List ℕ} (hid : .removed id ∉ log) (hn : taken.Nodup) (ht : taken = come ++ id :: rest) :
    Serves taken (come ++ [id]) (.called id :: log) := by
  refine ⟨h.in_order.append (.refl _), fun later t earlier heq => ?_, fun t hm => ?_,
    fun later t earlier before after heq htaken => ?_⟩
  · cases later with
    | nil =>
      cases heq
      exact hid
    | cons _ later =>
      injection heq with _ heq
      exact h.standing later t earlier heq
  · cases List.mem_append.mp hm with
    | inl hm => exact (h.turn t hm).imp (List.mem_cons_of_mem _) (List.mem_cons_of_mem _)
    | inr hm => exact .inl (List.mem_singleton.mp hm ▸ List.mem_cons_self)
  · cases later with
    | nil =>
      cases heq
      have ⟨_, hn, hdisjoint⟩ := List.nodup_append.mp (htaken ▸ hn)
      have hbefore : id ∉ before := fun hm => hdisjoint id hm id List.mem_cons_self rfl
      have heq := htaken.symm.trans ht
      rw [List.append_cons_inj_of_notMem hbefore (List.nodup_cons.mp hn).1] at heq
      rw [heq.1]
      exact h.turn
    | cons _ later =>
      injection heq with _ heq
      exact h.waited later t earlier before after heq htaken

end Serves

structure Serving (s : Timers) : Prop where
  nodup  : s.taken.Nodup
  known  : ∀ t ∈ s.taken, t ∈ s.live ∨ .removed t ∈ s.log
  gone   : ∀ t, .removed t ∈ s.log → t ∉ s.live ∧ t < s.nextSource
  serves : ∃ come, s.taken = come ++ s.listCursor.tail ∧ Serves s.taken come s.log

theorem serving_runDue {come due : List ℕ} (hn : s.taken.Nodup)
    (hk : ∀ t ∈ s.taken, t ∈ s.live ∨ .removed t ∈ s.log)
    (hg : ∀ t, .removed t ∈ s.log → t ∉ s.live ∧ t < s.nextSource) (ht : s.taken = come ++ due)
    (hs : Serves s.taken come s.log) : (s.runDue due).Serving := by
  have ⟨skipped, hskip, h⟩ := s.runDue_spec due
  have hremoved (hsub : ∀ t ∈ skipped, t ∈ due) : ∀ t ∈ skipped, .removed t ∈ s.log := by
    intro t hm
    exact (hk t (ht ▸ List.mem_append_right _ (hsub t hm))).resolve_left (hskip t hm)
  cases h with
  | inl h =>
    have ⟨hdue, h⟩ := h
    rw [h]
    refine ⟨hn, hk, hg, come ++ skipped, ?_, hs.skip (hremoved fun t hm => hdue ▸ hm)⟩
    rw [List.tail_nil, List.append_nil, ← hdue]
    exact ht
  | inr h =>
    have ⟨id, rest, hdue, hid, h⟩ := h
    rw [h]
    have hs := hs.skip (hremoved fun t hm => hdue ▸ List.mem_append_left _ hm)
    have ht : s.taken = come ++ skipped ++ id :: rest := by rw [ht, hdue, List.append_assoc]
    refine ⟨hn, fun t hm => (hk t hm).imp_right (List.mem_cons_of_mem _), fun t hm => ?_,
      come ++ skipped ++ [id], ?_, hs.call (fun hm => (hg id hm).1 hid) hn ht⟩
    · exact hg t ((List.mem_cons.mp hm).resolve_left nofun)
    · rw [List.tail_cons, List.append_assoc (come ++ skipped)]
      exact ht

theorem addTimer_frame (s : Timers) (opens allocates grows : Bool) : ∃ fd count space, ∃ added : Bool,
    s.addTimer opens allocates grows = { s with
      fd, count, space
      live := (if added then [s.nextSource] else []) ++ s.live
      nextSource := if added then s.nextSource + 1 else s.nextSource } := by
  have hopen {s' : Timers} (h : s.ensureTimerfd opens = some s') : ∃ fd, s' = { s with fd } := by
    unfold ensureTimerfd at h
    split at h
    case isTrue => exact ⟨s.fd, (Option.some.inj h).symm⟩
    case isFalse =>
      split at h
      case isTrue => exact ⟨.cleared, (Option.some.inj h).symm⟩
      case isFalse => cases h
  have hgrow {s s' : Timers} (h : s.reserve grows = some s') : ∃ count space, s' = { s with count, space } := by
    unfold reserve at h
    split at h
    case isTrue =>
      split at h
      case isTrue => exact ⟨_, _, (Option.some.inj h).symm⟩
      case isFalse => cases h
    case isFalse => exact ⟨_, s.space, (Option.some.inj h).symm⟩
  unfold addTimer
  split
  case h_1 => exact ⟨s.fd, s.count, s.space, false, rfl⟩
  case h_2 _ s' h =>
    have ⟨fd, heq⟩ := hopen h
    rw [heq]
    split
    case isFalse => exact ⟨fd, s.count, s.space, false, rfl⟩
    case isTrue =>
      split
      case h_1 => exact ⟨fd, s.count, s.space, false, rfl⟩
      case h_2 _ _ h =>
        have ⟨count, space, heq⟩ := hgrow h
        exact ⟨fd, count, space, true, by rw [heq]; rfl⟩

theorem removeTimer_frame (id : ℕ) (shrinks : Bool) (hi : Inv s armed) : ∃ heap fd count space,
    s.removeTimer id shrinks =
      { s with heap, fd, count, space, live := s.live.erase id, log := .removed id :: s.log } := by
  have ⟨fd, heq, _⟩ := updateTimer_spec id 0 hi (Int.le_refl 0)
  unfold removeTimer unreserve
  rw [heq]
  simp only
  split
  case isTrue => exact ⟨_, _, _, _, rfl⟩
  case isFalse => exact ⟨_, _, _, s.space, rfl⟩

theorem serving_act {event : TimerEvent} (hi : Inv s armed) (hs : s.Serving) (h : s.act event = some s') :
    s'.Serving := by
  have ⟨come, htaken, hserves⟩ := hs.serves
  obtain ⟨opens, allocates, grows, rfl, rfl⟩ | ⟨id, now, msDelay, rfl, hid, hnow, rfl⟩ | ⟨id, shrinks, rfl, hid, rfl⟩ |
    ⟨now, rfl, _, hnow, rfl⟩ | ⟨id, rest, rfl, hl, rfl⟩ := act_cases h
  · have ⟨fd, count, space, added, heq⟩ := s.addTimer_frame opens allocates grows
    rw [heq]
    refine ⟨hs.nodup, fun t ht => (hs.known t ht).imp_left (List.mem_append_right _), fun t ht => ?_, come, htaken,
      hserves⟩
    have ⟨hlive, hlt⟩ := hs.gone t ht
    cases added with
    | false => exact ⟨hlive, hlt⟩
    | true => exact ⟨fun hm => (List.mem_cons.mp hm).elim hlt.ne hlive, Nat.lt_succ_of_lt hlt⟩
  · have ⟨fd, heq, _⟩ := updateTimer_spec id msDelay hi (hi.clock.trans hnow)
    rw [heq]
    exact ⟨hs.nodup, hs.known, hs.gone, come, htaken, hserves⟩
  · have ⟨heap, fd, count, space, heq⟩ := removeTimer_frame id shrinks hi
    rw [heq]
    refine ⟨hs.nodup, fun t ht => ?_, fun t ht => ?_, come, htaken, hserves.removed id⟩
    · by_cases hid : t = id
      case pos => exact .inr (hid ▸ List.mem_cons_self)
      case neg => exact (hs.known t ht).imp (List.mem_erase_of_ne hid).mpr (List.mem_cons_of_mem _)
    · cases List.mem_cons.mp ht with
      | inl heq =>
        cases heq
        exact ⟨fun hm => (hi.nodup.mem_erase_iff.mp hm).1 rfl, hi.fresh id hid⟩
      | inr ht => exact ⟨fun hm => (hs.gone t ht).1 (List.mem_of_mem_erase hm), (hs.gone t ht).2⟩
  · have ⟨fd, _, heq⟩ := dispatch_spec now hi
    have ht := TimerHeap.takeDue_spec now hi.consistent
    have hrun : Serving (runDue
        { s with heap := (s.heap.takeDue now).2, taken := (s.heap.takeDue now).1, log := [], fd } _) := serving_runDue
      ht.nodup (fun t hm => .inl (hi.live t (ht.subset t hm))) nofun rfl .start
    rw [heq]
    exact ⟨hrun.nodup, hrun.known, hrun.gone, hrun.serves⟩
  · rw [hl] at htaken
    exact serving_runDue hs.nodup hs.known hs.gone htaken hserves

-- The heap holds the armed timers, and there is room for all that exist. No timer waits for longer than it should.
-- Those that were taken off the heap have their turns one after another.
structure Sound (s : Timers) : Prop where
  armed  : ∀ t, t ∈ s.heap.data ↔ s.armed t ≠ none
  at_idx : ∀ (i : ℕ) t, s.heap.data[i]? = some t → s.heap.heapIdx t = i ∧ s.armed t = some (s.heap.deadline t)
  parent : ∀ (i : ℕ) t p, 0 < i → s.heap.data[i]? = some t → s.heap.data[(i - 1) / 2]? = some p →
    s.heap.deadline p ≤ s.heap.deadline t
  space  : s.active ≤ s.count ∧ s.count ≤ s.space
  fd     : (∃ t, s.armed t ≠ none) →
    ∃ time, s.fd = .set time ∧ ∀ t deadline, s.armed t = some deadline → time ≤ deadline
  serves : s.taken.Nodup ∧ ∃ come, s.taken = come ++ s.listCursor.tail ∧ Serves s.taken come s.log

structure TakesOff (s s' : Timers) (now : ℤ) : Prop where
  due    : ∀ t, t ∈ s'.taken ↔ ∃ deadline ≤ now, s.armed t = some deadline
  sorted : s'.taken.Pairwise fun t t' => ∀ deadline deadline', s.armed t = some deadline →
    s.armed t' = some deadline' → deadline ≤ deadline'
  off    : ∀ t, t ∈ s'.heap.data ↔ t ∈ s.heap.data ∧ t ∉ s'.taken

theorem sound (hi : Inv s s.armed) (hs : s.Serving) : s.Sound := by
  have hmem (t : ℕ) : t ∈ s.heap.data ↔ s.armed t ≠ none := by
    rw [hi.armed]
    split
    case isTrue ht => exact iff_of_true ht (by simp)
    case isFalse ht => exact iff_of_false ht (not_not.mpr rfl)
  refine ⟨hmem, fun i t hd => ⟨hi.consistent.at_eq hd, ?_⟩, fun i t p h0 hd hp => ?_, ⟨?_, hi.space⟩, ?_,
    hs.nodup, hs.serves⟩
  · rw [hi.armed, if_pos (List.mem_of_getElem? hd)]
  · have := hi.ordered i h0 (List.getElem?_eq_some_iff.mp hd).1
    rwa [HeapOrder.parent, TimerHeap.keyAt_eq hp, TimerHeap.keyAt_eq hd] at this
  · rw [hi.count]
    exact (hi.consistent.nodup.subperm hi.live).length_le
  · rintro ⟨t, ht⟩
    obtain ⟨i, _, hd⟩ := hi.consistent.idx ((hmem t).mpr ht)
    have hlen := (List.getElem?_eq_some_iff.mp hd).1
    have hroot := List.getElem?_eq_getElem (show 0 < s.heap.data.length by omega)
    obtain ⟨time, hfd, hle⟩ := hi.covered _ hroot
    refine ⟨time, hfd, fun t deadline ht => ?_⟩
    have hm := (hmem t).mpr (by simp [ht])
    obtain ⟨i, _, hd⟩ := hi.consistent.idx hm
    rw [hi.armed, if_pos hm] at ht
    cases ht
    exact hle.trans (hi.ordered.root_le hroot hd)

theorem takesOff {now : ℤ} (hi : Inv s s.armed) (h : s.step (.dispatch now) = some s') : s.TakesOff s' now := by
  have ⟨s₁, ha, heq⟩ := Option.map_eq_some_iff.mp h
  obtain ⟨_, _, _, h, _⟩ | ⟨_, _, _, h, _⟩ | ⟨_, _, h, _⟩ | ⟨_, h, _, _, h₁⟩ | ⟨_, _, h, _⟩ := act_cases ha
  case inr.inr.inr.inl =>
    cases h
    have ⟨fd, _, hd⟩ := dispatch_spec now hi
    have ht := TimerHeap.takeDue_spec now hi.consistent
    have hs := TimerHeap.takeDue_inOrder now hi.consistent hi.ordered
    have harmed {t : ℕ} (hm : t ∈ (s.heap.takeDue now).1) : s.armed t = some (s.heap.deadline t) := by
      rw [hi.armed, if_pos (ht.subset t hm)]
    have htaken : s'.taken = (s.heap.takeDue now).1 ∧ s'.heap = (s.heap.takeDue now).2 := by
      have ⟨_, _, hrun⟩ := runDue_spec
        { s with heap := (s.heap.takeDue now).2, taken := (s.heap.takeDue now).1, log := [], fd } (s.heap.takeDue now).1
      rw [← heq, h₁, hd]
      cases hrun with
      | inl hrun => rw [hrun.2]; exact ⟨rfl, rfl⟩
      | inr hrun =>
        have ⟨_, _, _, _, hrun⟩ := hrun
        rw [hrun]
        exact ⟨rfl, rfl⟩
    refine ⟨fun t => ?_, ?_, fun t => ?_⟩
    · rw [htaken.1]
      constructor
      case mp => exact fun hm => ⟨_, hs.due t hm, harmed hm⟩
      case mpr =>
        intro ⟨deadline, hle, hd⟩
        rw [hi.armed] at hd
        split at hd
        case isFalse => cases hd
        case isTrue hm =>
          cases hd
          refine not_not.mp fun hn => ?_
          have hrest := (ht.mem t).mpr ⟨hm, hn⟩
          have := hs.rest t hrest
          rw [hs.deadline t hrest] at this
          omega
    · rw [htaken.1]
      refine hs.sorted.imp_of_mem fun ha hb hle d d' hd hd' => ?_
      rw [harmed ha] at hd
      rw [harmed hb] at hd'
      cases hd
      cases hd'
      exact hle
    · rw [htaken.1, htaken.2]
      exact ht.mem t
  all_goals cases h

theorem taken_stays {event : TimerEvent} (hi : Inv s s.armed) (h : s.step event = some s')
    (hne : ∀ now, event ≠ .dispatch now) : s'.taken = s.taken ∧ s.log <:+ s'.log := by
  have ⟨s₁, ha, heq⟩ := Option.map_eq_some_iff.mp h
  rw [← heq]
  obtain ⟨opens, allocates, grows, _, h₁⟩ | ⟨id, now, msDelay, _, _, hnow, h₁⟩ | ⟨id, shrinks, _, _, h₁⟩ |
    ⟨now, h, _⟩ | ⟨_, rest, _, _, h₁⟩ := act_cases ha
  · have ⟨_, _, _, _, heq⟩ := s.addTimer_frame opens allocates grows
    rw [h₁, heq]
    exact ⟨rfl, List.suffix_rfl⟩
  · have ⟨_, heq, _⟩ := updateTimer_spec id msDelay hi (hi.clock.trans hnow)
    rw [h₁, heq]
    exact ⟨rfl, List.suffix_rfl⟩
  · have ⟨_, _, _, _, heq⟩ := removeTimer_frame id shrinks hi
    rw [h₁, heq]
    exact ⟨rfl, List.suffix_cons _ _⟩
  · exact absurd h (hne now)
  · have ⟨_, _, hrun⟩ := s.runDue_spec rest
    rw [h₁]
    cases hrun with
    | inl hrun => rw [hrun.2]; exact ⟨rfl, List.suffix_rfl⟩
    | inr hrun =>
      have ⟨_, _, _, _, hrun⟩ := hrun
      rw [hrun]
      exact ⟨rfl, List.suffix_cons _ _⟩

theorem timers_run_in_order (h : Machine.Reaches step (fun _ _ => True) {} s) : s.Sound ∧
    (∀ now s', s.step (.dispatch now) = some s' → s.TakesOff s' now) ∧
    ∀ event s', s.step event = some s' → (∀ now, event ≠ .dispatch now) →
      s'.taken = s.taken ∧ s.log <:+ s'.log := by
  have hinv : Inv s s.armed ∧ s.Serving := by
    induction h
    case refl => exact ⟨inv_start, .nil, nofun, nofun, [], rfl, .start⟩
    case tail s₁ s₂ event _ _ hstep ih =>
      have ⟨hi, hs⟩ := ih
      have ⟨s', ha, heq⟩ := Option.map_eq_some_iff.mp hstep
      have hi' := inv_act hi ha
      have hs' := serving_act hi hs ha
      rw [← heq]
      exact ⟨⟨hi'.consistent, hi'.ordered, hi'.armed, hi'.live, hi'.nodup, hi'.fresh, hi'.count, hi'.space, hi'.clock,
        hi'.future, hi'.covered⟩, hs'.nodup, hs'.known, hs'.gone, hs'.serves⟩
  exact ⟨sound hinv.1 hinv.2, fun _ _ => takesOff hinv.1, fun _ _ => taken_stays hinv.1⟩

theorem timers_run_in_order_two : ∃ s : Timers, Machine.Reaches step (fun _ _ => True) {} s ∧
    s.taken = [1, 0] ∧ s.log = [.removed 0, .called 1] ∧ s.Sound := by
  have hr : Machine.Reaches step (fun _ _ => True) {} _ := Machine.Reaches.of_run
    [.add true true true, .add true true true, .update 0 0 5, .update 1 0 3, .dispatch 6000000, .remove 0 true] rfl
  exact ⟨_, hr, rfl, rfl, (timers_run_in_order hr).1⟩

end Timers

end Libwayland
