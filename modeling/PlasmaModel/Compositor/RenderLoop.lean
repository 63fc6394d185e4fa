import PlasmaModel.Region.RectF

namespace KWin

inductive PresentationMode
  | vSync
  | adaptiveSync
  | async
  | adaptiveAsync
deriving DecidableEq

-- All durations are in nanoseconds, and exact.
structure RenderJournal where
  lastAdd  : Option Int := none
  mResult  : Int := 0
  variance : Int := 0

namespace RenderJournal

def mix (duration1 duration2 : Int) (ratio : ℚ) : Int :=
  roundAway (duration1 * ratio + duration2 * (1 - ratio))

def clamp (q lo hi : ℚ) : ℚ :=
  max lo (min q hi)

def add (journal : RenderJournal) (renderTime presentationTimestamp : Int) : RenderJournal :=
  let timeDifference := (journal.lastAdd.map (presentationTimestamp - ·)).getD 10000000000
  let varianceRatio := clamp (timeDifference / 6000000000) (1 / 1000) (1 / 10)
  let renderTimeDiff := max (renderTime - journal.mResult) 0
  let ratio := clamp (timeDifference / 500000000) (1 / 100) 1
  {
    lastAdd  := some presentationTimestamp
    mResult  := mix renderTime journal.mResult ratio
    variance := max (mix renderTimeDiff journal.variance varianceRatio) renderTimeDiff
  }

def result (journal : RenderJournal) : Int :=
  journal.mResult + journal.variance * 2

end RenderJournal

-- An active timer holds the milliseconds it was started with.
structure RenderLoop where
  lastPresentationTimestamp : Int := 0
  nextPresentationTimestamp : Int := 0
  wasTripleBuffering        : Bool := false
  doubleBufferingCounter    : Int := 0
  compositeTimer            : Option Int := none
  renderJournal             : RenderJournal := {}
  refreshRate               : Int := 60000
  pendingFrameCount         : Int := 0
  preparingNewFrame         : Bool := false
  inhibitCount              : Int := 0
  pendingReschedule         : Bool := false
  safetyMargin              : Int := 0
  presentationMode          : PresentationMode := .vSync
  maxPendingFrameCount      : Int := 1
  refreshRate_lt            : refreshRate < 2 ^ 31 := by decide
  maxPendingFrameCount_lt   : maxPendingFrameCount < 2 ^ 31 := by decide

-- The conversions to `uint64_t` and to `int32_t`.
def toUInt64 (n : Int) : Int :=
  n % 2 ^ 64

def toInt32 (n : Int) : Int :=
  n.bmod (2 ^ 32)

-- What the hysteresis between double and triple buffering decides.
structure Buffering where
  pageflipsInAdvance      : Int
  expectedCompositingTime : Int
  wasTripleBuffering      : Bool
  doubleBufferingCounter  : Int

namespace RenderLoop

variable (loop : RenderLoop)

def vblankInterval : Int :=
  1000000000000 / loop.refreshRate

def expectedCompositingTime : Int :=
  min (loop.renderJournal.result + loop.safetyMargin + 1000000) (2 * loop.vblankInterval)

def pageflipsSince (currentTime : Int) : Int :=
  max ((currentTime - loop.lastPresentationTimestamp).tdiv loop.vblankInterval) 0

-- The number of intervals from the last presentation to a timestamp.
def intervalsTo (timestamp : Int) : Int :=
  roundAway ((timestamp - loop.lastPresentationTimestamp : Int) / loop.vblankInterval)

-- The GPU is likely in a low power state if it has been a while since the last frame.
def wakeUpTime (currentTime : Int) : Int :=
  if loop.pageflipsSince currentTime > 100 then
    max (loop.vblankInterval - 1000) loop.expectedCompositingTime
  else
    loop.expectedCompositingTime

def buffering (currentTime : Int) : Buffering :=
  let expectedCompositingTime := loop.wakeUpTime currentTime
  let pageflipsInAdvance :=
    toUInt64 (min (expectedCompositingTime.tdiv loop.vblankInterval + 1) loop.maxPendingFrameCount)
  if pageflipsInAdvance > 1 then
    ⟨pageflipsInAdvance, expectedCompositingTime, true, 0⟩
  else if loop.wasTripleBuffering then
    if loop.doubleBufferingCounter ≥ 10 then
      ⟨pageflipsInAdvance, expectedCompositingTime, false, loop.doubleBufferingCounter⟩
    else if (expectedCompositingTime : ℚ) ≥ loop.vblankInterval * (95 / 100) then
      ⟨2, loop.vblankInterval, true, 0⟩
    else
      ⟨2, loop.vblankInterval, true, loop.doubleBufferingCounter + 1⟩
  else
    ⟨pageflipsInAdvance, expectedCompositingTime, false, loop.doubleBufferingCounter⟩

def startTimer (currentTime nextPresentationTimestamp expectedCompositingTime : Int) : RenderLoop :=
  let nextRenderTimestamp := nextPresentationTimestamp - expectedCompositingTime
  { loop with
    nextPresentationTimestamp
    compositeTimer := some (max 0 ((nextRenderTimestamp - currentTime).tdiv 1000000)) }

def scheduleRepaint (currentTime lastTargetTimestamp : Int) : RenderLoop :=
  let loop := { loop with pendingReschedule := false }
  match loop.presentationMode with
  | .vSync =>
    let buffering := loop.buffering currentTime
    let pageflipsSinceLastToTarget := max (loop.intervalsTo lastTargetTimestamp) 0
    let nextPresentationTimestamp :=
      -- The frame is scheduled already, and the targeted vblank interval must not change.
      if loop.compositeTimer.isSome then
        let intervalsSinceLastTimestamp := max (toInt32 (loop.intervalsTo loop.nextPresentationTimestamp)) 0
        loop.lastPresentationTimestamp + intervalsSinceLastTimestamp * loop.vblankInterval
      else
        loop.lastPresentationTimestamp +
          max (loop.pageflipsSince currentTime + buffering.pageflipsInAdvance) (pageflipsSinceLastToTarget + 1) *
            loop.vblankInterval
    { loop with
      wasTripleBuffering     := buffering.wasTripleBuffering
      doubleBufferingCounter := buffering.doubleBufferingCounter
      : RenderLoop }.startTimer currentTime nextPresentationTimestamp buffering.expectedCompositingTime
  | .async | .adaptiveAsync =>
    { loop with wasTripleBuffering := false, doubleBufferingCounter := 0 : RenderLoop }.startTimer currentTime
      currentTime loop.expectedCompositingTime
  | .adaptiveSync =>
    { loop with wasTripleBuffering := false, doubleBufferingCounter := 0 : RenderLoop }.startTimer currentTime
      (max currentTime (loop.lastPresentationTimestamp + loop.vblankInterval)) loop.expectedCompositingTime

def scheduleNextRepaint (isTerminating : Bool) (currentTime : Int) : RenderLoop :=
  if isTerminating || loop.compositeTimer.isSome || loop.preparingNewFrame then
    loop
  else
    loop.scheduleRepaint currentTime loop.nextPresentationTimestamp

def delayScheduleRepaint : RenderLoop :=
  { loop with pendingReschedule := true }

def notifyVblank (currentTime timestamp : Int) : RenderLoop :=
  if loop.lastPresentationTimestamp ≤ timestamp then
    { loop with lastPresentationTimestamp := timestamp }
  else
    { loop with lastPresentationTimestamp := currentTime }

def resume (isTerminating : Bool) (currentTime : Int) : RenderLoop :=
  if loop.inhibitCount = 0 ∧ loop.pendingReschedule then
    loop.scheduleNextRepaint isTerminating currentTime
  else
    loop

def notifyFrameDropped (isTerminating : Bool) (currentTime : Int) : RenderLoop :=
  { loop with pendingFrameCount := loop.pendingFrameCount - 1 : RenderLoop }.resume isTerminating currentTime

def notifyFrameCompleted (isTerminating : Bool) (currentTime timestamp : Int) (renderTime : Option Int) : RenderLoop :=
  let loop := { loop with pendingFrameCount := loop.pendingFrameCount - 1 : RenderLoop }.notifyVblank currentTime timestamp
  let loop :=
    match renderTime with
    | none => loop
    | some renderTime => { loop with renderJournal := loop.renderJournal.add renderTime timestamp }
  let loop :=
    if loop.compositeTimer.isSome then
      -- Reschedule to match the new timestamp and render time.
      loop.scheduleRepaint currentTime loop.lastPresentationTimestamp
    else
      loop
  loop.resume isTerminating currentTime

def inhibit : RenderLoop :=
  { loop with
    inhibitCount   := loop.inhibitCount + 1
    compositeTimer := if loop.inhibitCount = 0 then none else loop.compositeTimer }

def uninhibit (isTerminating : Bool) (currentTime : Int) : RenderLoop :=
  let loop := { loop with inhibitCount := loop.inhibitCount - 1 : RenderLoop }
  if loop.inhibitCount = 0 then loop.scheduleNextRepaint isTerminating currentTime else loop

def prepareNewFrame : RenderLoop :=
  { loop with pendingFrameCount := loop.pendingFrameCount + 1, preparingNewFrame := true }

def effectiveMaxPendingFrameCount : Int :=
  if loop.presentationMode = .vSync then loop.maxPendingFrameCount else 1

-- This is the end of `RenderLoop::scheduleRepaint`, if the repaint is not delayed.
def requestRepaint (isTerminating : Bool) (currentTime : Int) : RenderLoop :=
  if loop.pendingFrameCount < loop.effectiveMaxPendingFrameCount ∧ loop.inhibitCount = 0 then
    loop.scheduleNextRepaint isTerminating currentTime
  else
    loop.delayScheduleRepaint

end RenderLoop

inductive RenderEvent
  | scheduleRepaint
  | timerEvent (prepares : Bool)
  | newFramePrepared
  | inhibit
  | uninhibit
  | frameDropped
  | frameCompleted (timestamp : Int) (renderTime : Option Int)
  | setPresentationMode (mode : PresentationMode)

-- What is requested while a frame is being prepared goes into that frame.
structure RenderSession where
  loop      : RenderLoop
  requested : Bool := false

-- A frame is prepared as soon as the timer asks the compositor for one, if that does not have to start anew.
def RenderSession.step (s : RenderSession) : Int × RenderEvent → Option RenderSession
  | (now, .scheduleRepaint) =>
    some { loop := s.loop.requestRepaint false now, requested := s.requested || !s.loop.preparingNewFrame }
  | (_, .timerEvent prepares) =>
    if s.loop.compositeTimer.isSome ∧ s.loop.preparingNewFrame = false then
      let loop := { s.loop with compositeTimer := none : RenderLoop }
      some { loop := if prepares then loop.prepareNewFrame else loop }
    else
      none
  | (_, .newFramePrepared) => some { s with loop := { s.loop with preparingNewFrame := false } }
  | (_, .inhibit) => some { s with loop := s.loop.inhibit }
  | (now, .uninhibit) =>
    if 0 < s.loop.inhibitCount then some { s with loop := s.loop.uninhibit false now } else none
  | (now, .frameDropped) =>
    if 0 < s.loop.pendingFrameCount then some { s with loop := s.loop.notifyFrameDropped false now } else none
  | (now, .frameCompleted timestamp renderTime) =>
    if 0 < s.loop.pendingFrameCount then
      some { s with loop := s.loop.notifyFrameCompleted false now timestamp renderTime }
    else
      none
  | (_, .setPresentationMode mode) => some { s with loop := { s.loop with presentationMode := mode } }

end KWin
