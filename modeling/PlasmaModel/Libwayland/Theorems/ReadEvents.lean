import Mathlib.Data.Set.Card
import PlasmaModel.Lib.Runs
import PlasmaModel.Libwayland.ReadEvents

namespace Libwayland.Display

variable {Thread Queue Event : Type}
variable {d d' : Display Thread Queue Event} {t : Thread} {queue : Queue} {answer : SocketRead Queue Event}

-- What a thread that sleeps since the wake-up `since` can rely on. The serial it has read is the current one again
-- only after so many wake-ups that the counter of 32 bits has gone round.
structure Owed (d : Display Thread Queue Event) (serial : BitVec 32) (since : ℕ) : Prop where
  unchanged : d.wakeups = since → 0 < d.readerCount
  equal     : d.wakeups < since + 2 ^ 32 → d.readSerial = serial → 0 < d.readerCount

structure Correct (d : Display Thread Queue Event) : Prop where
  count       : d.readerCount = d.outstanding.ncard
  socketReads : ∀ threads ∈ d.socketReads, threads = ∅
  queues      : ∀ t queue, d.threads t = .prepared queue → d.queues queue = []
  owed        : ∀ t serial since, d.threads t = .asleep serial since → d.Owed serial since

-- What holds even before the threads are woken up that have to be.
structure Sound (d : Display Thread Queue Event) : Prop where
  finite      : d.outstanding.Finite
  count       : d.readerCount = d.outstanding.ncard
  serial      : d.readSerial = BitVec.ofNat 32 d.wakeups
  socketReads : ∀ threads ∈ d.socketReads, threads = ∅
  queues      : ∀ t queue, d.threads t = .prepared queue → d.queues queue = []
  asleep      : ∀ t serial since, d.threads t = .asleep serial since → serial = BitVec.ofNat 32 since ∧ since ≤ d.wakeups

structure Inv (d : Display Thread Queue Event) : Prop extends d.Sound where
  owed : ∀ t serial, d.threads t = .asleep serial d.wakeups → 0 < d.readerCount

theorem Inv.correct (h : d.Inv) : d.Correct := by
  refine ⟨h.count, h.socketReads, h.queues, fun t serial since ht => ?_⟩
  have ⟨hserial, hle⟩ := h.asleep t serial since ht
  refine ⟨fun heq => h.owed t serial (heq ▸ ht), fun hlt heq => h.owed t serial ?_⟩
  rw [h.serial, hserial, ← BitVec.toNat_inj, BitVec.toNat_ofNat, BitVec.toNat_ofNat] at heq
  rwa [show d.wakeups = since by omega]

theorem Sound.wakeupThreads (h : d.Sound) : d.wakeupThreads.Inv where
  finite := h.finite
  count := h.count
  serial := by
    simp only [Display.wakeupThreads, h.serial]
    rw [BitVec.ofNat_add]
    rfl
  socketReads := h.socketReads
  queues := h.queues
  asleep := fun t serial since ht =>
    have ⟨hserial, hle⟩ := h.asleep t serial since ht
    ⟨hserial, Nat.le_succ_of_le hle⟩
  owed := fun t serial ht => absurd (h.asleep t serial _ ht).2 (Nat.not_succ_le_self _)

theorem Sound.setError (h : d.Sound) (error : Int) : Sound { d with lastError := error } :=
  { h with }

theorem Sound.fatalError (h : d.Sound) (h0 : d.lastError = 0) (error : Int) : (d.fatalError error).Inv := by
  unfold Display.fatalError
  rw [if_neg (by simp [h0])]
  exact (h.setError _).wakeupThreads

theorem Inv.fatalError (h : d.Inv) (error : Int) : (d.fatalError error).Inv := by
  by_cases h0 : d.lastError = 0
  case pos => exact h.toSound.fatalError h0 error
  case neg => rwa [Display.fatalError, if_pos h0]

theorem Sound.cancelRead (h : Sound { d with readerCount := d.readerCount - 1 }) : d.cancelRead.Inv := by
  unfold Display.cancelRead
  simp only
  split
  case isTrue => exact h.wakeupThreads
  case isFalse hne =>
    have hc := h.count
    exact { h with owed := fun _ _ _ => by simp only at hc hne ⊢; omega }

-- Events are queued when no thread relies on an empty queue.
theorem Sound.queueEvents [DecidableEq Queue] (events : List (Queue × Event)) (h : d.Sound) (ho : d.outstanding = ∅) :
    (events.foldl queueEvent d).Sound ∧ (events.foldl queueEvent d).lastError = d.lastError := by
  induction events generalizing d
  case nil => exact ⟨h, rfl⟩
  case cons event events ih =>
    have hq : (d.queueEvent event).Sound := { h with
      queues := fun t queue ht => by
        have hmem : t ∈ d.outstanding := ⟨queue, ht⟩
        rw [ho] at hmem
        cases hmem }
    exact ih hq ho

theorem Sound.readSocket [DecidableEq Queue] (h : d.Sound) (h0 : d.lastError = 0) (ho : d.outstanding = ∅) : (d.readSocket answer).Inv := by
  cases answer with
  | error errno =>
    unfold Display.readSocket
    simp only
    split
    case isTrue => exact h.wakeupThreads
    case isFalse => exact h.fatalError h0 errno
  | closed => exact h.fatalError h0 epipe
  | data events error =>
    have ⟨hs, he⟩ := h.queueEvents events ho
    unfold Display.readSocket
    cases error with
    | none => exact hs.wakeupThreads
    | some errno => exact hs.fatalError (he.trans h0) errno

theorem Inv.dispatchEvent [DecidableEq Queue] (h : d.Inv) : (d.dispatchEvent queue).Inv := by
  unfold Display.dispatchEvent
  split
  case isTrue => exact h
  case isFalse =>
    exact { h with
      queues := fun t queue' ht => by
        show Function.update d.queues queue (d.queues queue).tail queue' = []
        rw [Function.update_apply]
        split
        case isTrue heq => rw [← heq, h.queues t queue' ht, List.tail_nil]
        case isFalse => exact h.queues t queue' ht }

theorem inv_empty : Inv ({} : Display Thread Queue Event) where
  finite := by simp [outstanding]
  count := by simp [outstanding]
  serial := rfl
  socketReads := nofun
  queues := nofun
  asleep := nofun
  owed := nofun

variable [DecidableEq Thread]

theorem threads_setThread {state : ThreadState Queue} {t' : Thread} :
    (d.setThread t state).threads t' = if t' = t then state else d.threads t' :=
  Function.update_apply _ _ _ _

theorem outstanding_setThread {state : ThreadState Queue} (hs : ∀ queue, state ≠ .prepared queue) :
    (d.setThread t state).outstanding = d.outstanding \ {t} := by
  ext t'
  rw [outstanding, Set.mem_ofPred_eq, threads_setThread]
  by_cases heq : t' = t
  case pos => simp [heq, hs]
  case neg => simp [heq, outstanding]

theorem outstanding_prepare : (d.setThread t (.prepared queue)).outstanding = insert t d.outstanding := by
  ext t'
  rw [outstanding, Set.mem_ofPred_eq, threads_setThread]
  by_cases heq : t' = t
  case pos => simp [heq]
  case neg => simp [heq, outstanding]

-- A thread that is no longer prepared is no longer counted.
theorem Sound.leave (state : ThreadState Queue) (h : d.Sound) (ht : d.threads t = .prepared queue)
    (hs : ∀ queue, state ≠ .prepared queue)
    (ha : ∀ serial since, state = .asleep serial since → serial = BitVec.ofNat 32 since ∧ since ≤ d.wakeups) :
    Sound { d.setThread t state with readerCount := d.readerCount - 1 } where
  finite := by
    show (d.setThread t state).outstanding.Finite
    rw [outstanding_setThread hs]
    exact h.finite.subset Set.sdiff_subset
  count := by
    show d.readerCount - 1 = (d.setThread t state).outstanding.ncard
    have hmem : t ∈ d.outstanding := ⟨queue, ht⟩
    have hcard := Set.ncard_sdiff_singleton_add_one hmem h.finite
    rw [outstanding_setThread hs, h.count]
    omega
  serial := h.serial
  socketReads := h.socketReads
  queues := fun t' queue' ht' => by
    have ht' : (d.setThread t state).threads t' = .prepared queue' := ht'
    rw [threads_setThread] at ht'
    split at ht'
    case isTrue => exact absurd ht' (hs queue')
    case isFalse => exact h.queues t' queue' ht'
  asleep := fun t' serial since ht' => by
    have ht' : (d.setThread t state).threads t' = .asleep serial since := ht'
    rw [threads_setThread] at ht'
    split at ht'
    case isTrue => exact ha serial since ht'
    case isFalse => exact h.asleep t' serial since ht'

theorem Inv.prepareReadQueue (h : d.Inv) (ht : d.threads t = .running) : (d.prepareReadQueue t queue).Inv := by
  unfold Display.prepareReadQueue
  split
  case isFalse => exact h
  case isTrue hq =>
    have hnot : t ∉ d.outstanding := fun ⟨queue', ht'⟩ => by
      rw [ht] at ht'
      cases ht'
    have hcount : d.readerCount + 1 = (d.setThread t (.prepared queue)).outstanding.ncard := by
      rw [outstanding_prepare, Set.ncard_insert_of_notMem hnot h.finite, h.count]
      rfl
    have hfinite : (d.setThread t (.prepared queue)).outstanding.Finite := by
      rw [outstanding_prepare]
      exact h.finite.insert t
    refine { finite := hfinite, count := hcount, serial := h.serial, socketReads := h.socketReads,
             queues := ?queues, asleep := ?asleep, owed := ?owed }
    case queues =>
      intro t' queue' ht'
      have ht' : (d.setThread t (.prepared queue)).threads t' = .prepared queue' := ht'
      rw [threads_setThread] at ht'
      split at ht'
      case isTrue =>
        cases ht'
        exact List.isEmpty_iff.mp hq
      case isFalse => exact h.queues t' queue' ht'
    case asleep =>
      intro t' serial since ht'
      have ht' : (d.setThread t (.prepared queue)).threads t' = .asleep serial since := ht'
      rw [threads_setThread] at ht'
      split at ht'
      case isTrue => cases ht'
      case isFalse => exact h.asleep t' serial since ht'
    case owed =>
      intro t' serial ht'
      show 0 < d.readerCount + 1
      rw [h.count]
      exact Int.natCast_succ_pos _

theorem Inv.awake {serial : BitVec 32} {since : ℕ} (h : d.Inv) (ht : d.threads t = .asleep serial since) :
    (d.setThread t .running).Inv := by
  have hsame : (d.setThread t .running).outstanding = d.outstanding := by
    rw [outstanding_setThread nofun]
    exact Set.sdiff_singleton_eq_self fun ⟨queue, ht'⟩ => by
      rw [ht] at ht'
      cases ht'
  have hold {t' state} (hne : state ≠ .running) (ht' : (d.setThread t .running).threads t' = state) :
      d.threads t' = state := by
    rw [threads_setThread] at ht'
    split at ht'
    case isTrue => exact absurd ht'.symm hne
    case isFalse => exact ht'
  exact {
    finite := hsame ▸ h.finite
    count := hsame ▸ h.count
    serial := h.serial
    socketReads := h.socketReads
    queues := fun t' queue ht' => h.queues t' queue (hold nofun ht')
    asleep := fun t' serial since ht' => h.asleep t' serial since (hold nofun ht')
    owed := fun t' serial ht' => h.owed t' serial (hold nofun ht') }

variable [DecidableEq Queue]

theorem Inv.readEvents (h : d.Inv) (h0 : d.lastError = 0) (ht : d.threads t = .prepared queue) :
    (d.readEvents t answer).Inv := by
  unfold Display.readEvents
  simp only
  split
  case isTrue hc =>
    have hs := h.toSound.leave .running ht nofun nofun
    have ho : (d.setThread t .running).outstanding = ∅ := by
      have hcount := hs.count
      rw [hc] at hcount
      exact (Set.ncard_eq_zero hs.finite).mp (Int.ofNat.inj hcount.symm)
    have hread : Sound { d.setThread t .running with
        readerCount := d.readerCount - 1
        socketReads := (d.setThread t .running).outstanding :: d.socketReads } := { hs with
      socketReads := fun threads hm => (List.mem_cons.mp hm).elim (fun heq => heq.trans ho) (h.socketReads threads) }
    exact hread.readSocket h0 ho
  case isFalse hc =>
    have hs := h.toSound.leave (.asleep d.readSerial d.wakeups) ht nofun fun serial since heq => by
      cases heq
      exact ⟨h.serial, Nat.le_refl _⟩
    have hcount : d.readerCount - 1 = (d.setThread t (.asleep d.readSerial d.wakeups)).outstanding.ncard := hs.count
    have hpos : 0 < d.readerCount - 1 := by
      rw [hcount] at hc ⊢
      exact Int.natCast_pos.mpr (Nat.pos_of_ne_zero fun heq => hc (congrArg Int.ofNat heq))
    exact { hs with owed := fun _ _ _ => hpos }

theorem Inv.step {event : Section Thread Queue Event} (h : d.Inv) (hs : d.step event = some d') : d'.Inv := by
  cases event with
  | prepareRead t queue =>
    rw [Display.step] at hs
    split at hs
    case h_2 => cases hs
    case h_1 ht =>
      cases hs
      exact h.prepareReadQueue ht
  | readEvents t answer =>
    rw [Display.step] at hs
    split at hs
    case h_2 => cases hs
    case h_1 queue ht =>
      cases hs
      unfold displayReadEvents
      split
      case isTrue => exact Sound.cancelRead (h.toSound.leave .running ht nofun nofun)
      case isFalse h0 => exact h.readEvents (Decidable.not_not.mp h0) ht
  | cancelRead t =>
    rw [Display.step] at hs
    split at hs
    case h_2 => cases hs
    case h_1 queue ht =>
      cases hs
      exact Sound.cancelRead (h.toSound.leave .running ht nofun nofun)
  | wake t =>
    rw [Display.step] at hs
    split at hs
    case h_2 => cases hs
    case h_1 serial since ht =>
      cases hs
      split
      case isTrue => exact h
      case isFalse => exact h.awake ht
  | dispatchEvent queue =>
    cases hs
    exact h.dispatchEvent
  | fatalError error =>
    cases hs
    exact h.fatalError error
  | protocolError isDisplay code =>
    cases hs
    exact { h.toSound.setError _ with owed := h.owed }

theorem sections_always_correct (sections : List (Section Thread Queue Event)) :
    Machine.Always step Correct ({} : Display Thread Queue Event) sections :=
  Machine.Always.of_invariant sections inv_empty Inv.correct fun h hs => h.step hs

end Libwayland.Display
