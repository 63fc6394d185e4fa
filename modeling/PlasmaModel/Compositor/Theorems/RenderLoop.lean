import PlasmaModel.Compositor.RenderLoop
import PlasmaModel.Lib.Runs

namespace KWin.RenderLoop

variable {loop : RenderLoop} {now target k : Int}

theorem vblankInterval_pos (hr : 0 < loop.refreshRate) : 0 < loop.vblankInterval := by
  have hlt := loop.refreshRate_lt
  exact (Int.le_ediv_iff_mul_le hr).mpr (by omega)

theorem lt_intervalsTo (hi : 0 < loop.vblankInterval) (target : Int) :
    2 * (target - loop.lastPresentationTimestamp) ≤ (2 * loop.intervalsTo target + 1) * loop.vblankInterval := by
  have hpos : (0 : ℚ) < loop.vblankInterval := Int.cast_pos.mpr hi
  have hround := le_roundAway ((target - loop.lastPresentationTimestamp : Int) / loop.vblankInterval)
  rw [sub_le_iff_le_add, div_le_iff₀ hpos] at hround
  have hround : (2 * (target - loop.lastPresentationTimestamp : Int) : ℚ) ≤
      (2 * loop.intervalsTo target + 1) * loop.vblankInterval := by
    unfold intervalsTo
    linarith
  exact_mod_cast hround

theorem intervalsTo_eq (hi : 0 < loop.vblankInterval) (h : target = loop.lastPresentationTimestamp + k * loop.vblankInterval) :
    loop.intervalsTo target = k := by
  have hne : (loop.vblankInterval : ℚ) ≠ 0 := Int.cast_ne_zero.mpr hi.ne'
  rw [intervalsTo, h, add_sub_cancel_left, Int.cast_mul, mul_div_cancel_right₀ _ hne, roundAway_intCast]

theorem lt_pageflipsSince (hi : 0 < loop.vblankInterval) (now : Int) :
    now - loop.lastPresentationTimestamp < (loop.pageflipsSince now + 1) * loop.vblankInterval := by
  have hlt := Int.lt_tdiv_add_one_mul_self (now - loop.lastPresentationTimestamp) hi
  have hle : (now - loop.lastPresentationTimestamp).tdiv loop.vblankInterval ≤ loop.pageflipsSince now := le_max_left ..
  exact hlt.trans_le (Int.mul_le_mul_of_nonneg_right (by omega) hi.le)

theorem tdiv_nonneg_of_neg_lt {e i : Int} (hi : 0 < i) (h : -i < e) : 0 ≤ e.tdiv i := by
  cases le_total 0 e
  case inl he => exact Int.tdiv_nonneg he hi.le
  case inr he =>
    have hz : (-e).tdiv i = 0 := Int.tdiv_eq_zero_of_lt (by omega) (by omega)
    rw [Int.neg_tdiv] at hz
    omega

-- The compositing is not expected to be done a whole interval before it starts.
def Timely (loop : RenderLoop) : Prop :=
  -loop.vblankInterval < loop.renderJournal.result + loop.safetyMargin + 1000000

theorem Timely.wakeUpTime (h : loop.Timely) (hi : 0 < loop.vblankInterval) (now : Int) :
    -loop.vblankInterval < loop.wakeUpTime now := by
  unfold Timely at h
  unfold RenderLoop.wakeUpTime expectedCompositingTime
  split_ifs <;> omega

theorem Timely.pageflipsInAdvance (h : loop.Timely) (hi : 0 < loop.vblankInterval) (hm : 1 ≤ loop.maxPendingFrameCount)
    (now : Int) :
    1 ≤ (loop.buffering now).pageflipsInAdvance ∧
      (loop.buffering now).pageflipsInAdvance ≤ max 2 loop.maxPendingFrameCount := by
  have hdiv := tdiv_nonneg_of_neg_lt hi (h.wakeUpTime hi now)
  have hlt := loop.maxPendingFrameCount_lt
  have heq : toUInt64 (min ((loop.wakeUpTime now).tdiv loop.vblankInterval + 1) loop.maxPendingFrameCount) =
      min ((loop.wakeUpTime now).tdiv loop.vblankInterval + 1) loop.maxPendingFrameCount :=
    Int.emod_eq_of_lt (by omega) (by omega)
  simp only [buffering, heq]
  split_ifs <;> simp only <;> omega

-- The next frame is to be presented at a vblank that is still to come, and later than the one before it.
structure Targets (loop : RenderLoop) (now next : Int) : Prop where
  onGrid : ∃ n : ℤ, 0 < n ∧ next = loop.lastPresentationTimestamp + n * loop.vblankInterval
  ahead  : now < next
  later  : loop.vblankInterval ≤ 2 * (next - loop.nextPresentationTimestamp)

theorem Timely.targets (h : loop.Timely) (hmode : loop.presentationMode = .vSync) (hr : 0 < loop.refreshRate)
    (hm : 1 ≤ loop.maxPendingFrameCount) (ht : loop.compositeTimer = none) (hp : loop.preparingNewFrame = false) :
    Targets loop now (loop.scheduleNextRepaint false now).nextPresentationTimestamp := by
  have hi := vblankInterval_pos hr
  have hadv := (h.pageflipsInAdvance hi hm now).1
  have hsince := lt_pageflipsSince hi now
  have htarget := lt_intervalsTo hi loop.nextPresentationTimestamp
  have hnonneg : 0 ≤ loop.pageflipsSince now := le_max_right ..
  have hnext : (loop.scheduleNextRepaint false now).nextPresentationTimestamp = loop.lastPresentationTimestamp +
      max (loop.pageflipsSince now + (loop.buffering now).pageflipsInAdvance)
        (max (loop.intervalsTo loop.nextPresentationTimestamp) 0 + 1) * loop.vblankInterval := by
    simp only [scheduleNextRepaint, scheduleRepaint, ht, hp, hmode, startTimer]
    rfl
  rw [hnext]
  generalize hn : max (loop.pageflipsSince now + (loop.buffering now).pageflipsInAdvance)
    (max (loop.intervalsTo loop.nextPresentationTimestamp) 0 + 1) = n
  constructor
  case onGrid => exact ⟨n, by omega, rfl⟩
  case ahead =>
    have hle : (loop.pageflipsSince now + 1) * loop.vblankInterval ≤ n * loop.vblankInterval :=
      Int.mul_le_mul_of_nonneg_right (by omega) hi.le
    omega
  case later =>
    have hle : (2 * loop.intervalsTo loop.nextPresentationTimestamp + 1) * loop.vblankInterval ≤
        (2 * n - 1) * loop.vblankInterval := Int.mul_le_mul_of_nonneg_right (by omega) hi.le
    have hexp : (2 * n - 1) * loop.vblankInterval = 2 * (n * loop.vblankInterval) - loop.vblankInterval := by ring
    omega

theorem scheduleRepaint_keeps (hmode : loop.presentationMode = .vSync) (hr : 0 < loop.refreshRate)
    (ht : loop.compositeTimer.isSome) (hk : 0 ≤ k ∧ k < 2 ^ 31)
    (hn : loop.nextPresentationTimestamp = loop.lastPresentationTimestamp + k * loop.vblankInterval) :
    (loop.scheduleRepaint now target).nextPresentationTimestamp = loop.nextPresentationTimestamp := by
  have hnext : (loop.scheduleRepaint now target).nextPresentationTimestamp = loop.lastPresentationTimestamp +
      max (toInt32 (loop.intervalsTo loop.nextPresentationTimestamp)) 0 * loop.vblankInterval := by
    simp only [scheduleRepaint, ht, hmode, startTimer]
    rfl
  have h32 : toInt32 k = k := Int.bmod_eq_of_le (by omega) (by omega)
  rw [hnext, intervalsTo_eq (vblankInterval_pos hr) hn, h32, max_eq_left hk.1, hn]

theorem repaints_on_grid (hmode : loop.presentationMode = .vSync) (hr : 0 < loop.refreshRate)
    (hm : 1 ≤ loop.maxPendingFrameCount) :
    (loop.Timely → loop.compositeTimer = none → loop.preparingNewFrame = false →
      Targets loop now (loop.scheduleNextRepaint false now).nextPresentationTimestamp) ∧
    (∀ target k : ℤ, loop.compositeTimer.isSome → 0 ≤ k ∧ k < 2 ^ 31 →
      loop.nextPresentationTimestamp = loop.lastPresentationTimestamp + k * loop.vblankInterval →
      (loop.scheduleRepaint now target).nextPresentationTimestamp = loop.nextPresentationTimestamp) ∧
    (loop.Timely → (loop.buffering now).pageflipsInAdvance ≤ max 2 loop.maxPendingFrameCount) :=
  ⟨fun h ht hp => h.targets hmode hr hm ht hp, fun _ _ ht hk hn => scheduleRepaint_keeps hmode hr ht hk hn,
    fun h => (h.pageflipsInAdvance (vblankInterval_pos hr) hm now).2⟩

def idle : RenderLoop := {}

theorem repaints_on_grid_idle : Targets idle 20000000 (idle.scheduleNextRepaint false 20000000).nextPresentationTimestamp :=
  have htimely : idle.Timely := by unfold Timely; decide
  (repaints_on_grid rfl (by decide) (by decide)).1 htimely rfl rfl

-- The frame was to be presented at a vblank which has gone by before the last presentation.
def missed : RenderLoop :=
  { lastPresentationTimestamp := 16666666, compositeTimer := some 0 }

-- The host compositor reported the presentation before it asked for a frame.
def early : RenderLoop :=
  { safetyMargin := -20000000 }

theorem repaints_not_on_grid :
    (¬∀ (loop : RenderLoop) (now target k : Int), loop.presentationMode = .vSync → 0 < loop.refreshRate →
      1 ≤ loop.maxPendingFrameCount → loop.compositeTimer.isSome →
      loop.nextPresentationTimestamp = loop.lastPresentationTimestamp + k * loop.vblankInterval →
      (loop.scheduleRepaint now target).nextPresentationTimestamp = loop.nextPresentationTimestamp) ∧
    ¬∀ (loop : RenderLoop) (now : Int), loop.presentationMode = .vSync → 0 < loop.refreshRate →
      1 ≤ loop.maxPendingFrameCount → loop.compositeTimer = none → loop.preparingNewFrame = false →
      Targets loop now (loop.scheduleNextRepaint false now).nextPresentationTimestamp := by
  constructor
  case left =>
    intro h
    have hkept := h missed 16666666 16666666 (-1) rfl (by decide) (by decide) rfl (by decide)
    exact absurd hkept (by decide +kernel)
  case right =>
    intro h
    have htargets := h early 20000000 rfl (by decide) (by decide) rfl rfl
    exact absurd htargets.ahead (by decide +kernel)

-- What the schedule of the next frame leaves alone.
structure SameCounts (loop loop' : RenderLoop) : Prop where
  preparing : loop'.preparingNewFrame = loop.preparingNewFrame
  inhibited : loop'.inhibitCount = loop.inhibitCount
  max       : loop'.maxPendingFrameCount = loop.maxPendingFrameCount

theorem scheduleRepaint_starts (loop : RenderLoop) (now target : Int) :
    (loop.scheduleRepaint now target).compositeTimer.isSome ∧ SameCounts loop (loop.scheduleRepaint now target) := by
  unfold scheduleRepaint
  cases hmode : loop.presentationMode <;> exact ⟨rfl, rfl, rfl, rfl⟩

theorem scheduleNextRepaint_starts (loop : RenderLoop) (now : Int) :
    (loop.preparingNewFrame = false → (loop.scheduleNextRepaint false now).compositeTimer.isSome) ∧
    SameCounts loop (loop.scheduleNextRepaint false now) := by
  have hs := loop.scheduleRepaint_starts now loop.nextPresentationTimestamp
  unfold scheduleNextRepaint
  split
  case isTrue h => exact ⟨fun hp => by simpa [hp] using h, rfl, rfl, rfl⟩
  case isFalse => exact ⟨fun _ => hs.1, hs.2⟩

-- What the end of a frame does before it schedules the next one.
structure EndsFrame (loop loop' : RenderLoop) : Prop where
  same       : SameCounts loop loop'
  timer      : loop'.compositeTimer.isSome = loop.compositeTimer.isSome
  reschedule : loop'.compositeTimer.isSome = false → loop'.pendingReschedule = loop.pendingReschedule

theorem EndsFrame.rescheduled {loop' : RenderLoop} (h : EndsFrame loop loop') :
    EndsFrame loop (if loop'.compositeTimer.isSome then loop'.scheduleRepaint now target else loop') := by
  have ⟨hs, hc⟩ := loop'.scheduleRepaint_starts now target
  split
  case isTrue ht =>
    refine ⟨⟨hc.1.trans h.same.1, hc.2.trans h.same.2, hc.3.trans h.same.3⟩, ?_, fun hn => absurd hs (hn ▸ nofun)⟩
    rw [hs, ← h.timer, ht]
  case isFalse => exact h

theorem endsFrame_notifyFrameCompleted (loop : RenderLoop) (now timestamp : Int) (renderTime : Option Int) :
    ∃ loop', EndsFrame loop loop' ∧ loop.notifyFrameCompleted false now timestamp renderTime = loop'.resume false now := by
  refine ⟨_, ?_, rfl⟩
  apply EndsFrame.rescheduled
  unfold notifyVblank
  cases renderTime <;> simp only <;> split <;> exact ⟨⟨rfl, rfl, rfl⟩, rfl, fun _ => rfl⟩

end KWin.RenderLoop

namespace KWin.RenderSession

open RenderLoop

variable {s s' : RenderSession} {loop' : RenderLoop} {now : Int} {r : Bool}

-- The timer will ask the compositor for the next frame.
def Comes (s : RenderSession) : Prop :=
  s.loop.compositeTimer.isSome ∨ 0 < s.loop.inhibitCount ∨ s.loop.pendingReschedule ∧ 0 < s.loop.pendingFrameCount

structure Counted (s : RenderSession) : Prop where
  inhibited : 0 ≤ s.loop.inhibitCount ∧ (0 < s.loop.inhibitCount → s.loop.compositeTimer = none)
  max       : 1 ≤ s.loop.maxPendingFrameCount
  preparing : s.loop.preparingNewFrame = true → s.requested = false

structure Inv (s : RenderSession) : Prop extends Counted s where
  comes : s.requested = true → s.Comes

theorem Counted.scheduleNextRepaint (h : Counted s) (hi : s.loop.inhibitCount = 0)
    (hr : s.loop.preparingNewFrame = true → r = false) : Inv ⟨s.loop.scheduleNextRepaint false now, r⟩ := by
  have ⟨ht, hc⟩ := s.loop.scheduleNextRepaint_starts now
  have hz := hc.inhibited.trans hi
  refine ⟨⟨⟨hz.ge, fun hlt => absurd hz hlt.ne'⟩, hc.max.symm ▸ h.max, fun hp => hr (hc.preparing ▸ hp)⟩,
    fun hreq => .inl (ht ?_)⟩
  exact Bool.eq_false_iff.mpr fun hp => by simp [hr hp] at hreq

theorem Inv.resume (h : Inv s) (he : EndsFrame s.loop loop') : Inv { s with loop := loop'.resume false now } := by
  have hc : Counted { s with loop := loop' } := by
    refine ⟨⟨he.same.inhibited.symm ▸ h.inhibited.1, fun hi => ?_⟩, he.same.max.symm ▸ h.max,
      fun hp => h.preparing (he.same.preparing ▸ hp)⟩
    have ht := he.timer
    rw [h.inhibited.2 (he.same.inhibited ▸ hi)] at ht
    simpa using ht
  unfold RenderLoop.resume
  split
  case isTrue hr => exact hc.scheduleNextRepaint hr.1 hc.preparing
  case isFalse hr =>
    refine ⟨hc, fun hreq => ?_⟩
    cases ht : loop'.compositeTimer.isSome
    case true => exact .inl ht
    case false =>
      obtain hcome | hi | ⟨hp, _⟩ := h.comes hreq
      · simp [← he.timer, ht] at hcome
      · exact .inr (.inl (he.same.inhibited.symm ▸ hi))
      · have hne : loop'.inhibitCount ≠ 0 := fun hi => hr ⟨hi, (he.reschedule ht).trans hp⟩
        exact .inr (.inl (lt_of_le_of_ne hc.inhibited.1 hne.symm))

theorem Inv.requestRepaint (h : Inv s) (hr : s.loop.preparingNewFrame = true → r = false) :
    Inv ⟨s.loop.requestRepaint false now, r⟩ := by
  unfold RenderLoop.requestRepaint
  split
  case isTrue hroom => exact h.toCounted.scheduleNextRepaint hroom.2 hr
  case isFalse hroom =>
    refine ⟨⟨h.inhibited, h.max, hr⟩, fun _ => .inr ?_⟩
    have hmax : 1 ≤ s.loop.effectiveMaxPendingFrameCount := by
      unfold effectiveMaxPendingFrameCount
      split
      case isTrue => exact h.max
      case isFalse => exact le_rfl
    by_cases hz : s.loop.inhibitCount = 0
    case neg => exact .inl (lt_of_le_of_ne h.inhibited.1 (Ne.symm hz))
    case pos => exact .inr ⟨rfl, hmax.trans (not_lt.mp fun hlt => hroom ⟨hlt, hz⟩)⟩

theorem Inv.step {event : Int × RenderEvent} (h : Inv s) (hs : s.step event = some s') : Inv s' := by
  have ⟨now, event⟩ := event
  cases event with
  | scheduleRepaint => exact Option.some.inj hs ▸ h.requestRepaint fun hp => by simp [h.preparing hp, hp]
  | timerEvent prepares =>
    have ⟨⟨ht, _⟩, hs⟩ := Option.ite_none_right_eq_some.mp hs
    cases hs
    cases prepares <;> exact ⟨⟨⟨h.inhibited.1, fun _ => rfl⟩, h.max, fun _ => rfl⟩, nofun⟩
  | newFramePrepared =>
    cases hs
    exact ⟨⟨h.inhibited, h.max, nofun⟩, h.comes⟩
  | inhibit =>
    cases hs
    have hlt : 0 < s.loop.inhibitCount + 1 := Int.lt_add_one_of_le h.inhibited.1
    refine ⟨⟨⟨hlt.le, fun _ => ?_⟩, h.max, h.preparing⟩, fun _ => .inr (.inl hlt)⟩
    show (if s.loop.inhibitCount = 0 then none else s.loop.compositeTimer) = none
    split
    case isTrue => rfl
    case isFalse hne => exact h.inhibited.2 (lt_of_le_of_ne h.inhibited.1 (Ne.symm hne))
  | uninhibit =>
    have ⟨hlt, hs⟩ := Option.ite_none_right_eq_some.mp hs
    cases hs
    have hc : Counted { s with loop := { s.loop with inhibitCount := s.loop.inhibitCount - 1 } } :=
      ⟨⟨Int.le_sub_one_of_lt hlt, fun _ => h.inhibited.2 hlt⟩, h.max, h.preparing⟩
    unfold uninhibit
    simp only
    split
    case isTrue hz => exact hc.scheduleNextRepaint hz hc.preparing
    case isFalse hz => exact ⟨hc, fun _ => .inr (.inl (lt_of_le_of_ne hc.inhibited.1 (Ne.symm hz)))⟩
  | frameDropped =>
    have ⟨_, hs⟩ := Option.ite_none_right_eq_some.mp hs
    exact Option.some.inj hs ▸ h.resume ⟨⟨rfl, rfl, rfl⟩, rfl, fun _ => rfl⟩
  | frameCompleted timestamp renderTime =>
    have ⟨loop', he, heq⟩ := endsFrame_notifyFrameCompleted s.loop now timestamp renderTime
    have ⟨_, hs⟩ := Option.ite_none_right_eq_some.mp hs
    exact Option.some.inj hs ▸ heq ▸ h.resume he
  | setPresentationMode =>
    cases hs
    exact ⟨⟨h.inhibited, h.max, h.preparing⟩, h.comes⟩

end KWin.RenderSession
