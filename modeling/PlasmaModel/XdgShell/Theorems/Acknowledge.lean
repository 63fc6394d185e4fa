import PlasmaModel.XdgShell.Window

namespace KWin
namespace XdgSurfaceWindow

variable {w w' : XdgSurfaceWindow} {serial : UInt32} {last : Option XdgSurfaceConfigure}
variable {taken rest events : List XdgSurfaceConfigure} {event : XdgSurfaceConfigure} {buffer : Bool}
variable {windowGeometry : Option Size} {rect : Rect} {mode : MoveResizeMode}

-- The serial by which the next commit takes configure events.
def acknowledgedSerial (w : XdgSurfaceWindow) : Option UInt32 :=
  w.pendingAcknowledgedConfigure.or w.lastAcknowledgedConfigureSerial

structure Idle (w : XdgSurfaceWindow) : Prop where
  events  : w.configureEvents = []
  pending : w.pendingAcknowledgedConfigure = none
  serial  : w.lastAcknowledgedConfigureSerial = none
  last    : w.lastAcknowledgedConfigure = none

theorem takeEvents_append (last : Option XdgSurfaceConfigure) (hle : ∀ event ∈ taken, event.serial ≤ serial)
    (hlt : ∀ event ∈ rest.head?, serial < event.serial) :
    takeEvents serial last (taken ++ rest) = (taken.getLast?.or last, rest) := by
  induction taken generalizing last
  case nil =>
    cases rest
    case nil => rfl
    case cons event rest => exact if_pos (hlt event rfl)
  case cons event taken ih =>
    have h := UInt32.not_lt.mpr (hle event (by simp))
    rw [List.cons_append, takeEvents, if_neg h, ih _ fun e he => hle e (List.mem_cons_of_mem _ he)]
    rw [List.getLast?_cons]
    cases taken.getLast? <;> rfl

theorem takeEvents_spec (serial : UInt32) (last : Option XdgSurfaceConfigure) (events : List XdgSurfaceConfigure) :
    ∃ taken, events = taken ++ (takeEvents serial last events).2 ∧
      (takeEvents serial last events).1 = taken.getLast?.or last ∧
      (∀ event ∈ taken, event.serial ≤ serial) ∧
      ∀ event ∈ (takeEvents serial last events).2.head?, serial < event.serial := by
  induction events generalizing last
  case nil => exact ⟨[], rfl, rfl, by simp, by simp [takeEvents]⟩
  case cons event events ih =>
    rw [takeEvents]
    split
    case isTrue h => exact ⟨[], rfl, rfl, by simp, by simpa using h⟩
    case isFalse h =>
      have ⟨taken, he, hl, hle, hlt⟩ := ih (some event)
      have hlast : (takeEvents serial (some event) events).1 = (event :: taken).getLast?.or last := by
        rw [hl, List.getLast?_cons]
        cases taken.getLast? <;> rfl
      have htaken : ∀ e ∈ event :: taken, e.serial ≤ serial := by
        intro e hm
        cases hm
        case head => exact UInt32.not_lt.mp h
        case tail hm => exact hle e hm
      exact ⟨event :: taken, congrArg (event :: ·) he, hlast, htaken, hlt⟩

-- What the steps of the window do to its queue.

theorem moveResizeInternal_cases (w : XdgSurfaceWindow) (rect : Rect) (hm : mode ≠ .move) :
    w.moveResizeInternal rect mode =
      (if w.frameSizeToClientSize rect.size = w.clientSize then
        { w with
          frameGeometry :=
            w.nextGravity.apply (Rect.ofSize rect.topLeft (w.clientSizeToFrameSize w.clientSize)) rect }
      else
        { w with configureFlags := true, configureTimer := true }) :=
  if_pos hm

def nextConfigure (w : XdgSurfaceWindow) : XdgSurfaceConfigure where
  bounds  := w.moveResizeGeometry
  gravity := w.nextGravity
  serial  := w.displaySerial + 1
  flags   := (w.configureEvents.getLast?.elim false (·.flags)) || w.configureFlags

theorem timeout_eq (w : XdgSurfaceWindow) :
    w.timeout =
      { w with
        configureTimer := false
        displaySerial := w.displaySerial + 1
        isConfigured := true
        configureFlags := false
        nextGravity := .none
        configureEvents := w.configureEvents ++ [w.nextConfigure] } := by
  simp only [timeout, sendConfigure, sendRoleConfigure, nextConfigure]
  cases w.configureEvents.getLast? <;> rfl

-- The fields a commit leaves to the taking of the acknowledged events.
theorem apply_queue (w : XdgSurfaceWindow) (buffer : Bool) (windowGeometry : Option Size) :
    (w.apply buffer windowGeometry).configureEvents = w.configureEvents ∧
      (w.apply buffer windowGeometry).pendingAcknowledgedConfigure = none ∧
      (w.apply buffer windowGeometry).lastAcknowledgedConfigure = w.lastAcknowledgedConfigure ∧
      (w.apply buffer windowGeometry).lastAcknowledgedConfigureSerial = w.acknowledgedSerial ∧
      (w.apply buffer windowGeometry).isConfigured = w.isConfigured ∧
      (w.apply buffer windowGeometry).buffer = buffer ∧
      (w.apply buffer windowGeometry).configureFlags = w.configureFlags := by
  cases hp : w.pendingAcknowledgedConfigure <;> cases windowGeometry <;> cases buffer <;>
    cases hi : w.isInitialized <;>
    simp [apply, applySurface, handleConfigureAcknowledged, scheduleConfigure, acknowledgedSerial, hp, hi]

theorem apply_geometry (w : XdgSurfaceWindow) (buffer : Bool) (windowGeometry : Option Size) :
    (w.apply buffer windowGeometry).frameGeometry = w.frameGeometry ∧
      (w.apply buffer windowGeometry).moveResizeGeometry = w.moveResizeGeometry ∧
      (w.apply buffer windowGeometry).borders = w.borders ∧
      (w.apply buffer windowGeometry).windowGeometry = windowGeometry.getD w.windowGeometry := by
  cases hp : w.pendingAcknowledgedConfigure <;> cases windowGeometry <;> cases buffer <;>
    cases hi : w.isInitialized <;>
    simp [apply, applySurface, handleConfigureAcknowledged, scheduleConfigure, hp, hi]

theorem apply_initialized (buffer : Bool) (windowGeometry : Option Size) (h : w.isInitialized = true) :
    (w.apply buffer windowGeometry).isInitialized = true ∧
      (w.apply buffer windowGeometry).configureTimer = w.configureTimer ∧
      (w.apply buffer windowGeometry).nextGravity = w.nextGravity ∧
      ((w.apply buffer windowGeometry).haveNextWindowGeometry = false → windowGeometry = none) := by
  cases hp : w.pendingAcknowledgedConfigure <;> cases windowGeometry <;> cases buffer <;>
    simp [apply, applySurface, handleConfigureAcknowledged, hp, h]

theorem commit_cases (h : w.commit buffer windowGeometry = some w') :
    ((w.isConfigured = false ∨ buffer = false) ∧ w' = w.apply buffer windowGeometry) ∨
      (w.isConfigured = true ∧ buffer = true ∧
        w' = (w.apply buffer windowGeometry).takeAcknowledged.finishCommit) := by
  have ⟨_, _, _, _, hc, hb, _⟩ := w.apply_queue buffer windowGeometry
  rw [commit] at h
  split at h
  case isTrue => cases h
  case isFalse =>
    split at h
    case isTrue => cases h
    case isFalse =>
      cases h
      rw [handleCommit, hc, hb]
      cases w.isConfigured
      case false => exact .inl ⟨.inl rfl, rfl⟩
      case true =>
        cases buffer
        case false => exact .inl ⟨.inr rfl, rfl⟩
        case true => exact .inr ⟨rfl, rfl, rfl⟩

theorem finishCommit_queue (w : XdgSurfaceWindow) :
    w.finishCommit.configureEvents = w.configureEvents ∧ w.finishCommit.configureFlags = w.configureFlags ∧
      w.finishCommit.configureTimer = w.configureTimer ∧
      w.finishCommit.pendingAcknowledgedConfigure = w.pendingAcknowledgedConfigure ∧
      w.finishCommit.lastAcknowledgedConfigure = none ∧ w.finishCommit.lastAcknowledgedConfigureSerial = none := by
  rw [finishCommit]
  split
  case isTrue =>
    rw [handleNextWindowGeometry, maybeUpdateMoveResizeGeometry]
    split
    case isTrue => exact ⟨rfl, rfl, rfl, rfl, rfl, rfl⟩
    case isFalse => split <;> exact ⟨rfl, rfl, rfl, rfl, rfl, rfl⟩
  case isFalse => exact ⟨rfl, rfl, rfl, rfl, rfl, rfl⟩

theorem finishCommit_frameGeometry (h : w.lastAcknowledgedConfigure = some event) :
    w.finishCommit.frameGeometry = w.nextFrameGeometry := by
  rw [finishCommit, hasNextWindowGeometry, h, if_pos (by simp)]
  rfl

theorem finishCommit_fields (w : XdgSurfaceWindow) :
    w.finishCommit.isConfigured = w.isConfigured ∧ w.finishCommit.isInitialized = w.isInitialized ∧
      w.finishCommit.nextGravity = w.nextGravity ∧ w.finishCommit.borders = w.borders ∧
      w.finishCommit.windowGeometry = w.windowGeometry := by
  rw [finishCommit]
  split
  case isTrue =>
    rw [handleNextWindowGeometry, maybeUpdateMoveResizeGeometry]
    split
    case isTrue => exact ⟨rfl, rfl, rfl, rfl, rfl⟩
    case isFalse => split <;> exact ⟨rfl, rfl, rfl, rfl, rfl⟩
  case isFalse => exact ⟨rfl, rfl, rfl, rfl, rfl⟩

theorem finishCommit_next (h : w.hasNextWindowGeometry = true) :
    w.finishCommit.frameGeometry = w.nextFrameGeometry ∧
      w.finishCommit.moveResizeGeometry =
        if w.configureTimer || w.configureEvents.any (·.flags) then
          w.moveResizeGeometry
        else
          w.nextFrameGeometry := by
  rw [finishCommit, if_pos h, handleNextWindowGeometry, maybeUpdateMoveResizeGeometry]
  cases w.configureTimer <;> cases w.configureEvents.any (·.flags) <;> exact ⟨rfl, rfl⟩

theorem finishCommit_last (h : w.hasNextWindowGeometry = false) :
    w.finishCommit.frameGeometry = w.frameGeometry ∧
      w.finishCommit.moveResizeGeometry = w.moveResizeGeometry := by
  rw [finishCommit, h]
  exact ⟨rfl, rfl⟩

theorem takeAcknowledged_fields (w : XdgSurfaceWindow) :
    w.takeAcknowledged.frameGeometry = w.frameGeometry ∧ w.takeAcknowledged.configureFlags = w.configureFlags ∧
      w.takeAcknowledged.configureTimer = w.configureTimer ∧ w.takeAcknowledged.borders = w.borders ∧
      w.takeAcknowledged.pendingAcknowledgedConfigure = w.pendingAcknowledgedConfigure ∧
      w.takeAcknowledged.windowGeometry = w.windowGeometry ∧
      w.takeAcknowledged.haveNextWindowGeometry = w.haveNextWindowGeometry ∧
      w.takeAcknowledged.moveResizeGeometry = w.moveResizeGeometry ∧
      w.takeAcknowledged.isConfigured = w.isConfigured ∧ w.takeAcknowledged.isInitialized = w.isInitialized ∧
      w.takeAcknowledged.nextGravity = w.nextGravity := by
  rw [takeAcknowledged]
  split <;> exact ⟨rfl, rfl, rfl, rfl, rfl, rfl, rfl, rfl, rfl, rfl, rfl⟩

end XdgSurfaceWindow

namespace Session

open Machine XdgSurfaceWindow

-- The serials of the queued events, up to the acknowledged one and the one behind it, are in the turn of the
-- counter in which they are compared.
def InTurn (s : Session) : Prop :=
  ∀ serial ∈ s.window.acknowledgedSerial,
    (∀ event ∈ s.window.configureEvents.take (s.acknowledged - s.consumed), event.serial ≤ serial) ∧
      ∀ event ∈ (s.window.configureEvents.drop (s.acknowledged - s.consumed)).head?, serial < event.serial

instance (s : Session) : Decidable s.InTurn :=
  Option.decidableForallMem s.window.acknowledgedSerial

def CommitsInTurn (s : Session) : SessionEvent → Prop
  | .commit buffer _ => s.window.isConfigured = true → buffer = true → s.InTurn
  | _ => True

instance (s : Session) : (event : SessionEvent) → Decidable (s.CommitsInTurn event)
  | .commit _ _ => inferInstanceAs (Decidable (_ → _ → _))
  | .nextSerial | .scheduleConfigure | .move _ | .resize _ | .moveResize _ | .timeout | .ackConfigure _ =>
    instDecidableTrue

def AnyEvent (_ : Session) (_ : SessionEvent) : Prop :=
  True

instance (s : Session) (event : SessionEvent) : Decidable (s.AnyEvent event) :=
  inferInstanceAs (Decidable True)

def NoMove (_ : Session) : SessionEvent → Prop
  | .move _ => False
  | _ => True

-- `w` is the window in the middle of the commit, when the acknowledged events have been taken.
structure Consumes (s : Session) (w : XdgSurfaceWindow) : Prop where
  none : s.window.acknowledgedSerial = none →
    w.configureEvents = s.window.configureEvents ∧ w.lastAcknowledgedConfigure = none
  some : ∀ serial ∈ s.window.acknowledgedSerial, ∃ before event,
    s.window.configureEvents = before ++ event :: w.configureEvents ∧ event.serial = serial ∧
      s.consumed + before.length + 1 = s.acknowledged ∧ w.lastAcknowledgedConfigure = some event

structure Queued (s : Session) : Prop where
  last  : s.window.lastAcknowledgedConfigure = none
  queue : ∃ taken, s.configures.map (·.serial) = taken ++ s.window.configureEvents.map (·.serial)

-- The last acknowledged event waits in the queue until a commit has taken it.
structure Tracked (s : Session) : Prop extends Queued s where
  acknowledged : s.acknowledged ≤ s.configures.length
  named : ∀ serial ∈ s.window.acknowledgedSerial, ∃ i configure, s.acknowledged = i + 1 ∧ s.consumed ≤ i ∧
    s.configures[i]? = some configure ∧ configure.serial = serial
  spent : s.window.acknowledgedSerial = none → s.consumed = s.acknowledged

-- Nothing but the queue of configure events and what has been acknowledged.
structure Keeps (s s' : Session) : Prop where
  configures   : s'.configures = s.configures
  last         : s'.window.lastAcknowledgedConfigure = s.window.lastAcknowledgedConfigure
  acknowledged : s'.acknowledged = s.acknowledged
  serial       : s'.window.acknowledgedSerial = s.window.acknowledgedSerial

-- What an event does to the queue of configure events.
inductive Change (s : Session) : SessionEvent → Session → Prop
  | kept {event s'} : s.Keeps s' → s'.window.configureEvents = s.window.configureEvents →
      (s.window.configureFlags = true → s'.window.configureFlags = true) → Change s event s'
  | moved {point s'} : s.Keeps s' →
      s'.window.configureEvents.map (·.serial) = s.window.configureEvents.map (·.serial) → Change s (.move point) s'
  | sent {s' size} : s'.window.configureEvents = s.window.configureEvents ++ [s.window.nextConfigure] →
      s'.configures = s.configures ++ [⟨s.window.nextConfigure.serial, size⟩] →
      s'.window.lastAcknowledgedConfigure = s.window.lastAcknowledgedConfigure → s'.acknowledged = s.acknowledged →
      s'.window.acknowledgedSerial = s.window.acknowledgedSerial → Change s .timeout s'
  | acknowledged {i configure s'} : s.acknowledged ≤ i → s.configures[i]? = some configure →
      s'.configures = s.configures → s'.window.configureEvents = s.window.configureEvents →
      s'.window.configureFlags = s.window.configureFlags →
      s'.window.lastAcknowledgedConfigure = s.window.lastAcknowledgedConfigure → s'.acknowledged = i + 1 →
      s'.window.acknowledgedSerial = some configure.serial → Change s (.ackConfigure i) s'
  | taken {windowGeometry s'} : s.window.isConfigured = true →
      s'.window = (s.window.apply true windowGeometry).takeAcknowledged.finishCommit → s'.configures = s.configures →
      s'.acknowledged = s.acknowledged → Change s (.commit true windowGeometry) s'

variable {s s' s'' : Session} {w : XdgSurfaceWindow} {event : SessionEvent} {buffer : Bool}
variable {windowGeometry : Option Size} {serial : UInt32} {taken : List UInt32} {i : Nat}

theorem consumed_of_queue (h : s.configures.map (·.serial) = taken ++ s.window.configureEvents.map (·.serial)) :
    s.consumed = taken.length := by
  have hl := congrArg List.length h
  simp only [List.length_map, List.length_append] at hl
  exact Nat.sub_eq_of_eq_add hl

theorem moveResizeInternal_queue (w : XdgSurfaceWindow) (rect : Rect) (mode : MoveResizeMode) (hm : mode ≠ .move) :
    (w.moveResizeInternal rect mode).configureEvents = w.configureEvents ∧
      (w.moveResizeInternal rect mode).acknowledgedSerial = w.acknowledgedSerial ∧
      (w.moveResizeInternal rect mode).lastAcknowledgedConfigure = w.lastAcknowledgedConfigure ∧
      (w.configureFlags = true → (w.moveResizeInternal rect mode).configureFlags = true) := by
  rw [moveResizeInternal_cases w rect hm]
  split
  case isTrue => exact ⟨rfl, rfl, rfl, id⟩
  case isFalse => exact ⟨rfl, rfl, rfl, fun _ => rfl⟩

theorem step_change (hs : s.step event = some s') : s.Change event s' := by
  cases event
  case nextSerial =>
    cases hs
    exact .kept ⟨rfl, rfl, rfl, rfl⟩ rfl id
  case scheduleConfigure =>
    cases hs
    exact .kept ⟨rfl, rfl, rfl, rfl⟩ rfl id
  case move point =>
    cases hs
    exact .moved ⟨rfl, rfl, rfl, rfl⟩ (List.map_map ..)
  case resize size =>
    cases hs
    have ⟨hq, ha, hl, hf⟩ := moveResizeInternal_queue (s.window.setMoveResizeGeometry
      (Rect.ofSize s.window.moveResizeGeometry.topLeft size)) (Rect.ofSize s.window.moveResizeGeometry.topLeft size)
      .resize nofun
    exact .kept ⟨rfl, hl, rfl, ha⟩ hq hf
  case moveResize rect =>
    cases hs
    have ⟨hq, ha, hl, hf⟩ :=
      moveResizeInternal_queue (s.window.setMoveResizeGeometry rect) rect .moveResize nofun
    exact .kept ⟨rfl, hl, rfl, ha⟩ hq hf
  case timeout =>
    rw [step] at hs
    split at hs
    case isTrue =>
      cases hs
      rw [timeout_eq]
      exact .sent rfl rfl rfl rfl rfl
    case isFalse => cases hs
  case ackConfigure i =>
    rw [step] at hs
    split at hs
    case isTrue hi =>
      have ⟨configure, hc, hs⟩ := Option.map_eq_some_iff.mp hs
      cases hs
      exact .acknowledged hi hc rfl rfl rfl rfl rfl rfl
    case isFalse => cases hs
  case commit buffer windowGeometry =>
    have ⟨window, hw, hs⟩ := Option.map_eq_some_iff.mp hs
    cases hs
    cases commit_cases hw
    case inl h =>
      have ⟨hq, hp, hl, hs, _, _, hf⟩ := s.window.apply_queue buffer windowGeometry
      have ha : (s.window.apply buffer windowGeometry).acknowledgedSerial = s.window.acknowledgedSerial := by
        rw [acknowledgedSerial, hp, Option.none_or, hs]
      cases h.2
      exact .kept ⟨rfl, hl, rfl, ha⟩ hq fun h => hf.trans h
    case inr h =>
      have ⟨hc, hb, hw⟩ := h
      cases hb
      exact .taken hc hw rfl rfl

theorem takeAcknowledged_none (buffer : Bool) (windowGeometry : Option Size) (hl : w.lastAcknowledgedConfigure = none)
    (ha : w.acknowledgedSerial = none) :
    (w.apply buffer windowGeometry).takeAcknowledged.configureEvents = w.configureEvents ∧
      (w.apply buffer windowGeometry).takeAcknowledged.lastAcknowledgedConfigure = none := by
  have ⟨hq, _, hlast, hs, _, _, _⟩ := w.apply_queue buffer windowGeometry
  rw [takeAcknowledged, hs, ha]
  exact ⟨hq, hlast.trans hl⟩

theorem takeAcknowledged_some (buffer : Bool) (windowGeometry : Option Size) (hl : w.lastAcknowledgedConfigure = none)
    (ha : w.acknowledgedSerial = some serial) :
    (w.apply buffer windowGeometry).takeAcknowledged.configureEvents =
        (takeEvents serial none w.configureEvents).2 ∧
      (w.apply buffer windowGeometry).takeAcknowledged.lastAcknowledgedConfigure =
        (takeEvents serial none w.configureEvents).1 := by
  have ⟨hq, _, hlast, hs, _, _, _⟩ := w.apply_queue buffer windowGeometry
  rw [takeAcknowledged, hs, ha, hq, hlast, hl]
  exact ⟨rfl, rfl⟩

theorem takeAcknowledged_suffix (hl : w.lastAcknowledgedConfigure = none) (buffer : Bool)
    (windowGeometry : Option Size) :
    ∃ taken, w.configureEvents = taken ++ (w.apply buffer windowGeometry).takeAcknowledged.configureEvents ∧
      (w.apply buffer windowGeometry).takeAcknowledged.lastAcknowledgedConfigure = taken.getLast? := by
  cases ha : w.acknowledgedSerial
  case none =>
    have ⟨hq, hlast⟩ := takeAcknowledged_none buffer windowGeometry hl ha
    exact ⟨[], hq.symm, hlast⟩
  case some serial =>
    have ⟨hq, hlast⟩ := takeAcknowledged_some buffer windowGeometry hl ha
    have ⟨taken, he, ht, _, _⟩ := takeEvents_spec serial none w.configureEvents
    rw [hq, hlast]
    exact ⟨taken, he, ht.trans (Option.or_none ..)⟩

theorem consumed_le (hc : s'.configures = s.configures)
    (hq : s'.window.configureEvents.length ≤ s.window.configureEvents.length) : s.consumed ≤ s'.consumed := by
  rw [consumed, consumed, hc]
  exact Nat.sub_le_sub_left hq _

theorem Queued.step (h : s.Queued) (hs : s.step event = some s') : s'.Queued ∧ s.consumed ≤ s'.consumed := by
  have ⟨taken, hq⟩ := h.queue
  cases step_change hs
  case kept hk hq' _ =>
    have hq'' : s'.configures.map (·.serial) = taken ++ s'.window.configureEvents.map (·.serial) := by
      rw [hk.configures, hq', hq]
    exact ⟨⟨hk.last.trans h.last, taken, hq''⟩, consumed_le hk.configures (Nat.le_of_eq (congrArg _ hq'))⟩
  case moved hk hm =>
    have hq'' : s'.configures.map (·.serial) = taken ++ s'.window.configureEvents.map (·.serial) := by
      rw [hk.configures, hm, hq]
    have hl := congrArg List.length hm
    simp only [List.length_map] at hl
    exact ⟨⟨hk.last.trans h.last, taken, hq''⟩, consumed_le hk.configures (Nat.le_of_eq hl)⟩
  case sent size hq' hc hl _ _ =>
    have hq'' : s'.configures.map (·.serial) = taken ++ s'.window.configureEvents.map (·.serial) := by
      rw [hc, hq', List.map_append, List.map_append, hq, List.append_assoc]
      rfl
    exact ⟨⟨hl.trans h.last, taken, hq''⟩, Nat.le_of_eq ((consumed_of_queue hq).trans (consumed_of_queue hq'').symm)⟩
  case acknowledged hc hq' _ hl _ _ =>
    have hq'' : s'.configures.map (·.serial) = taken ++ s'.window.configureEvents.map (·.serial) := by
      rw [hc, hq', hq]
    exact ⟨⟨hl.trans h.last, taken, hq''⟩, consumed_le hc (Nat.le_of_eq (congrArg _ hq'))⟩
  case taken windowGeometry _ hw hc _ =>
    have ⟨events, he, _⟩ := takeAcknowledged_suffix h.last true windowGeometry
    have ⟨hf, _, _, _, hl, _⟩ := finishCommit_queue (s.window.apply true windowGeometry).takeAcknowledged
    have hq'' : s'.configures.map (·.serial) =
        (taken ++ events.map (·.serial)) ++ s'.window.configureEvents.map (·.serial) := by
      rw [hc, hw, hf, hq, he, List.map_append, List.append_assoc]
    have hlen : s'.window.configureEvents.length ≤ s.window.configureEvents.length := by
      rw [hw, hf, he, List.length_append]
      exact Nat.le_add_left ..
    exact ⟨⟨by rw [hw, hl], _, hq''⟩, consumed_le hc hlen⟩

theorem Queued.getElem? (h : s.Queued) (hi : s.consumed ≤ i) {configure : Configure}
    (hc : s.configures[i]? = some configure) :
    ∃ event, s.window.configureEvents[i - s.consumed]? = some event ∧ event.serial = configure.serial := by
  have ⟨taken, hq⟩ := h.queue
  have hn := consumed_of_queue hq
  have hs : (s.configures.map (·.serial))[i]? = some configure.serial := by rw [List.getElem?_map, hc]; rfl
  rw [hq, List.getElem?_append_right (hn ▸ hi), ← hn, List.getElem?_map] at hs
  exact Option.map_eq_some_iff.mp hs

theorem consumes_of_inTurn (buffer : Bool) (windowGeometry : Option Size) (h : s.Tracked) (ht : s.InTurn) :
    s.Consumes (s.window.apply buffer windowGeometry).takeAcknowledged where
  none ha := takeAcknowledged_none buffer windowGeometry h.last ha
  some serial ha := by
    have ⟨i, configure, hi, hn, hc, hs⟩ := h.named serial ha
    have ⟨event, he, hes⟩ := h.toQueued.getElem? hn hc
    have ⟨hle, hlt⟩ := ht serial ha
    have ⟨hq, hl⟩ := takeAcknowledged_some buffer windowGeometry h.last ha
    have hcount : s.acknowledged - s.consumed = i - s.consumed + 1 := by rw [hi, Nat.sub_add_comm hn]
    rw [hcount] at hle hlt
    have ht : s.window.configureEvents.take (i - s.consumed + 1) =
        s.window.configureEvents.take (i - s.consumed) ++ [event] := by
      rw [List.take_add_one, he]
      rfl
    have htake := takeEvents_append (none : Option XdgSurfaceConfigure) hle hlt
    rw [List.take_append_drop, ht, List.getLast?_concat] at htake
    rw [htake] at hq hl
    have hlen : (s.window.configureEvents.take (i - s.consumed)).length = i - s.consumed :=
      List.length_take_of_le (Nat.le_of_lt (List.getElem?_eq_some_iff.mp he).1)
    refine ⟨s.window.configureEvents.take (i - s.consumed), event, ?_, hes.trans hs, ?_, hl⟩
    case refine_1 =>
      rw [hq, ← List.singleton_append, ← List.append_assoc, ← ht, List.take_append_drop]
    case refine_2 => rw [hlen, Nat.add_sub_cancel' hn, hi]

theorem inTurn_of_consumes (h : s.Tracked)
    (hc : s.Consumes (s.window.apply buffer windowGeometry).takeAcknowledged) : s.InTurn := by
  intro serial ha
  have ⟨before, event, hq, _, hn, _⟩ := hc.some serial ha
  have ⟨hrest, _⟩ := takeAcknowledged_some buffer windowGeometry h.last ha
  have ⟨taken, he, _, hle, hlt⟩ := takeEvents_spec serial none s.window.configureEvents
  have ht : taken = before ++ [event] := by
    rw [← hrest] at he
    exact List.append_cancel_right (he.symm.trans (hq.trans (by simp)))
  have hcount : s.acknowledged - s.consumed = taken.length := by
    rw [← hn, ht, List.length_append, Nat.add_assoc, Nat.add_sub_cancel_left]
    rfl
  rw [hcount, he, List.take_left, List.drop_left]
  exact ⟨hle, hlt⟩

-- The queue and the acknowledgement stay where they are, even if another configure event is sent.
theorem Tracked.of_prefix (h : s.Tracked) (hq : s'.Queued) (hp : s.configures <+: s'.configures)
    (ha : s'.acknowledged = s.acknowledged) (hs : s'.window.acknowledgedSerial = s.window.acknowledgedSerial)
    (hc : s'.consumed = s.consumed) : s'.Tracked where
  toQueued     := hq
  acknowledged := ha ▸ Nat.le_trans h.acknowledged hp.length_le
  named serial hm := by
    have ⟨i, configure, hi, hn, hg, hserial⟩ := h.named serial (hs ▸ hm)
    have ⟨rest, hr⟩ := hp
    have hg' : s'.configures[i]? = some configure := by
      rw [← hr, List.getElem?_append_left (List.getElem?_eq_some_iff.mp hg).1, hg]
    exact ⟨i, configure, ha.trans hi, hc ▸ hn, hg', hserial⟩
  spent hm := hc ▸ ha ▸ h.spent (hs ▸ hm)

theorem consumed_eq (hc : s'.configures = s.configures)
    (hq : s'.window.configureEvents.map (·.serial) = s.window.configureEvents.map (·.serial)) :
    s'.consumed = s.consumed := by
  have hl := congrArg List.length hq
  simp only [List.length_map] at hl
  rw [consumed, consumed, hc, hl]

theorem Tracked.step (h : s.Tracked) (ht : s.CommitsInTurn event) (hs : s.step event = some s') : s'.Tracked := by
  have ⟨hq, _⟩ := h.toQueued.step hs
  cases step_change hs
  case kept hk hq' _ =>
    exact h.of_prefix hq (hk.configures ▸ List.prefix_rfl) hk.acknowledged hk.serial
      (consumed_eq hk.configures (congrArg _ hq'))
  case moved hk hm =>
    exact h.of_prefix hq (hk.configures ▸ List.prefix_rfl) hk.acknowledged hk.serial (consumed_eq hk.configures hm)
  case sent hq' hc _ ha hserial =>
    have hcons : s'.consumed = s.consumed := by
      rw [consumed, consumed, hq', hc, List.length_append, List.length_append]
      exact Nat.add_sub_add_right ..
    exact h.of_prefix hq (hc ▸ List.prefix_append ..) ha hserial hcons
  case acknowledged i configure hi hg hc hq' _ _ ha hserial =>
    have hcons := consumed_eq hc (congrArg _ hq')
    have hle : s.consumed ≤ s.acknowledged := by
      cases hm : s.window.acknowledgedSerial
      case none => exact Nat.le_of_eq (h.spent hm)
      case some serial =>
        have ⟨j, _, hj, hn, _⟩ := h.named serial hm
        exact Nat.le_trans hn (hj ▸ Nat.le_succ j)
    refine ⟨hq, ?_, ?_, ?_⟩
    case refine_1 => exact ha ▸ hc ▸ (List.getElem?_eq_some_iff.mp hg).1
    case refine_2 =>
      intro serial hm
      cases hserial.symm.trans hm
      exact ⟨i, configure, ha, hcons ▸ Nat.le_trans hle hi, hc ▸ hg, rfl⟩
    case refine_3 => exact fun hm => nomatch hserial.symm.trans hm
  case taken windowGeometry hconf hw hc ha =>
    have hcons := consumes_of_inTurn true windowGeometry h (ht hconf rfl)
    have ⟨hf, _, _, hp, _, hl⟩ := finishCommit_queue (s.window.apply true windowGeometry).takeAcknowledged
    have hserial : s'.window.acknowledgedSerial = none := by
      have ⟨_, _, _, _, hp', _⟩ := takeAcknowledged_fields (s.window.apply true windowGeometry)
      rw [hw, acknowledgedSerial, hp, hl, hp', (s.window.apply_queue true windowGeometry).2.1]
      rfl
    refine ⟨hq, ha ▸ hc ▸ h.acknowledged, ?_, ?_⟩
    case refine_1 => exact fun serial hm => nomatch hserial.symm.trans hm
    case refine_2 =>
      intro _
      cases hm : s.window.acknowledgedSerial
      case none =>
        have hq' := (hcons.none hm).1
        rw [consumed_eq hc (by rw [hw, hf, hq']), ha]
        exact h.spent hm
      case some serial =>
        have ⟨before, event, hq', _, hn, _⟩ := hcons.some serial hm
        have ⟨taken, hqueue⟩ := h.queue
        have hqueue' : s'.configures.map (·.serial) =
            (taken ++ before.map (·.serial) ++ [event.serial]) ++ s'.window.configureEvents.map (·.serial) := by
          rw [hc, hqueue, hq', hw, hf]
          simp
        rw [consumed_of_queue hqueue', ha, ← hn, consumed_of_queue hqueue]
        simp [Nat.add_assoc]
theorem Queued.ofWindow (h : w.Idle) : (ofWindow w).Queued :=
  ⟨h.last, [], by rw [Session.ofWindow, h.events]; rfl⟩

theorem Tracked.ofWindow (h : w.Idle) : (ofWindow w).Tracked where
  toQueued     := Queued.ofWindow h
  acknowledged := Nat.le_refl 0
  named serial hm := by
    rw [Session.ofWindow, acknowledgedSerial, h.pending, h.serial] at hm
    cases hm
  spent _ := by simp [Session.ofWindow, consumed]

-- The flag of a position request.

-- Every queued event that is the `n`-th or a later one has the flag, and so will the next one if it is the `n`-th.
structure Flagged (s : Session) (n : Nat) : Prop where
  sent   : n ≤ s.configures.length
  queued : ∀ i event, s.window.configureEvents[i]? = some event → n ≤ s.consumed + i → event.flags = true
  raised : s.configures.length ≤ n → s.window.configureFlags = true

theorem Queued.length (h : s.Queued) : s.configures.length = s.consumed + s.window.configureEvents.length := by
  have ⟨taken, hq⟩ := h.queue
  have hl := congrArg List.length hq
  simpa only [List.length_map, List.length_append, ← consumed_of_queue hq] using hl

theorem Flagged.nextConfigure {n : Nat} (h : s.Flagged n) (hq : s.Queued) (hn : s.consumed ≤ n) :
    s.window.nextConfigure.flags = true := by
  rw [XdgSurfaceWindow.nextConfigure]
  cases Nat.lt_or_ge n s.configures.length
  case inr hge => rw [h.raised hge, Bool.or_true]
  case inl hlt =>
    rw [hq.length] at hlt
    have hpos : 0 < s.window.configureEvents.length :=
      Nat.pos_of_lt_add_right (Nat.lt_of_le_of_lt hn hlt)
    have hlast := List.getLast?_eq_some_getLast (List.ne_nil_of_length_pos hpos)
    have hflag := h.queued _ _ (List.getLast?_eq_getElem? ▸ hlast) (by
      rw [← Nat.add_sub_assoc hpos]
      exact Nat.le_sub_one_of_lt hlt)
    rw [hlast, Option.elim_some, hflag, Bool.true_or]

theorem Flagged.step {n : Nat} (h : s.Flagged n) (hq : s.Queued) (hm : s.NoMove event) (hs : s.step event = some s')
    (hn : s'.consumed ≤ n) : s'.Flagged n := by
  have ⟨hq'', hle⟩ := hq.step hs
  cases step_change hs
  case kept hk hq' hf =>
    have hcons := consumed_eq hk.configures (congrArg _ hq')
    exact ⟨hk.configures ▸ h.sent, hq' ▸ hcons ▸ h.queued, fun hl => hf (h.raised (hk.configures ▸ hl))⟩
  case moved => cases hm
  case sent hq' hc _ _ _ =>
    have hcons : s'.consumed = s.consumed := by
      rw [consumed, consumed, hq', hc, List.length_append, List.length_append]
      exact Nat.add_sub_add_right ..
    have hlen : s'.configures.length = s.configures.length + 1 := by rw [hc, List.length_append]; rfl
    refine ⟨hlen ▸ Nat.le_succ_of_le h.sent, ?_, ?_⟩
    case refine_1 =>
      intro i event hi hni
      rw [hq'] at hi
      rw [List.getElem?_append] at hi
      split at hi
      case isTrue => exact h.queued i event hi (hcons ▸ hni)
      case isFalse =>
        have hevent := List.mem_singleton.mp (List.mem_of_getElem? hi)
        exact hevent ▸ h.nextConfigure hq (hcons ▸ hn)
    case refine_2 =>
      intro hl
      rw [hlen] at hl
      exact absurd (Nat.lt_of_lt_of_le hl h.sent) (Nat.lt_irrefl _)
  case acknowledged hc hq' hf _ _ _ =>
    have hcons := consumed_eq hc (congrArg _ hq')
    exact ⟨hc ▸ h.sent, hq' ▸ hcons ▸ h.queued, fun hl => hf.trans (h.raised (hc ▸ hl))⟩
  case taken windowGeometry _ hw hc _ =>
    have ⟨events, he, _⟩ := takeAcknowledged_suffix hq.last true windowGeometry
    have ⟨hf, hflags, _⟩ := finishCommit_queue (s.window.apply true windowGeometry).takeAcknowledged
    rw [← hf, ← hw] at he
    have hcons : s'.consumed = s.consumed + events.length := by
      have hlen := hq.length
      have hlen' := hq''.length
      rw [hc, hlen, he, List.length_append, ← Nat.add_assoc] at hlen'
      exact (Nat.add_right_cancel hlen').symm
    refine ⟨hc ▸ h.sent, ?_, ?_⟩
    case refine_1 =>
      intro i event hi hni
      apply h.queued (events.length + i) event
      case a => rw [he, List.getElem?_append_right (Nat.le_add_right ..), Nat.add_sub_cancel_left, hi]
      case a => rwa [← Nat.add_assoc, ← hcons]
    case refine_2 =>
      intro hl
      have ⟨_, hf₁, _⟩ := takeAcknowledged_fields (s.window.apply true windowGeometry)
      have ⟨_, _, _, _, _, _, hf₂⟩ := s.window.apply_queue true windowGeometry
      rw [hw, hflags, hf₁, hf₂]
      exact h.raised (hc ▸ hl)

theorem Flagged.applied {n : Nat} (h : s.Flagged n) (hq : s.Queued)
    (hs : s.step (.commit true windowGeometry) = some s') (hc : s.window.isConfigured = true) (hle : s.consumed ≤ n)
    (hlt : n < s'.consumed) :
    ∃ event, (s.window.apply true windowGeometry).takeAcknowledged.lastAcknowledgedConfigure = some event ∧
      event.flags = true ∧
      s'.window.frameGeometry = event.gravity.apply
        (Rect.ofSize s.window.pos (s.window.clientSizeToFrameSize (windowGeometry.getD s.window.windowGeometry)))
        event.bounds := by
  have ⟨hq', _⟩ := hq.step hs
  have ⟨window, hw, hs⟩ := Option.map_eq_some_iff.mp hs
  cases commit_cases hw
  case inl hw => simp [hc] at hw
  case inr hw =>
    have ⟨_, _, hw⟩ := hw
    cases hs
    have ⟨events, he, hl⟩ := takeAcknowledged_suffix hq.last true windowGeometry
    have ⟨hf, _⟩ := finishCommit_queue (s.window.apply true windowGeometry).takeAcknowledged
    rw [← hf, ← hw] at he
    have hcons : ({ s with window } : Session).consumed = s.consumed + events.length := by
      have hlen := hq.length
      have hlen' := hq'.length
      rw [hlen, he, List.length_append, ← Nat.add_assoc] at hlen'
      exact (Nat.add_right_cancel hlen').symm
    rw [hcons] at hlt
    have hpos : 0 < events.length := Nat.pos_of_lt_add_right (Nat.lt_of_le_of_lt hle hlt)
    have hlast := List.getLast?_eq_some_getLast (List.ne_nil_of_length_pos hpos)
    have hflag := h.queued (events.length - 1) (events.getLast (List.ne_nil_of_length_pos hpos))
      (by rw [he, List.getElem?_append_left (Nat.sub_one_lt_of_lt hpos), ← hlast, List.getLast?_eq_getElem?])
      (by rw [← Nat.add_sub_assoc hpos]; exact Nat.le_sub_one_of_lt hlt)
    rw [hlast] at hl
    have ⟨hframe, _, _, hborders, _, hgeometry, _⟩ :=
      takeAcknowledged_fields (s.window.apply true windowGeometry)
    have ⟨hframe', _, hborders', hgeometry'⟩ := s.window.apply_geometry true windowGeometry
    refine ⟨_, hl, hflag, ?_⟩
    rw [hw, finishCommit_frameGeometry hl, nextFrameGeometry, hl]
    simp only [hflag, if_true, XdgSurfaceWindow.pos, clientSizeToFrameSize, hframe, hframe', hborders, hborders',
      hgeometry, hgeometry']

theorem Queued.reaches {Allowed : Session → SessionEvent → Prop} (h : s.Queued)
    (hr : Reaches Session.step Allowed s s') : s'.Queued ∧ s.consumed ≤ s'.consumed := by
  induction hr
  case refl => exact ⟨h, Nat.le_refl _⟩
  case tail _ _ hs ih =>
    have ⟨hq, hle⟩ := ih.1.step hs
    exact ⟨hq, Nat.le_trans ih.2 hle⟩

theorem Flagged.reaches {n : Nat} (h : s.Flagged n) (hq : s.Queued) (hr : Reaches Session.step NoMove s s')
    (hn : s'.consumed ≤ n) : s'.Flagged n := by
  induction hr
  case refl => exact h
  case tail hr hm hs ih =>
    have hq' := (hq.reaches hr).1
    exact (ih (Nat.le_trans (hq'.step hs).2 hn)).step hq' hm hs hn

theorem Flagged.raised_now (hq : s.Queued) (hf : s.window.configureFlags = true) :
    s.Flagged s.configures.length where
  sent := Nat.le_refl _
  queued i event hi hn := by
    rw [hq.length] at hn
    have hlt := (List.getElem?_eq_some_iff.mp hi).1
    exact absurd (Nat.lt_of_lt_of_le hlt (Nat.le_of_add_le_add_left hn)) (Nat.lt_irrefl _)
  raised _ := hf

-- If the serials have not wrapped around in any commit before, the next commit takes just what has been acknowledged
-- if and only if they have not wrapped around in it either.
theorem acknowledged_consumed (h : w.Idle) :
    (∀ s s' buffer windowGeometry, Reaches step CommitsInTurn (ofWindow w) s →
      s.step (.commit buffer windowGeometry) = some s' → s.window.isConfigured = true → buffer = true →
        (s.Consumes (s.window.apply buffer windowGeometry).takeAcknowledged ↔ s.InTurn)) ∧
    (∀ s s', Reaches step AnyEvent (ofWindow w) s → Reaches step AnyEvent s s' →
      s.window.configureEvents.map (·.serial) = (s.configures.drop s.consumed).map (·.serial) ∧
        s.consumed ≤ s'.consumed) ∧
    ∀ s s', Reaches step AnyEvent (ofWindow w) s → s.window.configureFlags = true → Reaches step NoMove s s' →
      s'.consumed ≤ s.configures.length →
        (∀ i event, s'.window.configureEvents[i]? = some event → s.configures.length ≤ s'.consumed + i →
          event.flags = true) ∧
        ∀ s'' windowGeometry, s'.step (.commit true windowGeometry) = some s'' → s'.window.isConfigured = true →
          s.configures.length < s''.consumed →
          ∃ event, (s'.window.apply true windowGeometry).takeAcknowledged.lastAcknowledgedConfigure = some event ∧
            event.flags = true ∧
            s''.window.frameGeometry = event.gravity.apply
              (Rect.ofSize s'.window.pos
                (s'.window.clientSizeToFrameSize (windowGeometry.getD s'.window.windowGeometry)))
              event.bounds := by
  refine ⟨?_, ?_, ?_⟩
  case refine_1 =>
    intro s s' buffer windowGeometry hr _ _ _
    have htracked := hr.invariant (Tracked.ofWindow h) fun _ _ _ ht hc hs => ht.step hc hs
    exact ⟨inTurn_of_consumes htracked, consumes_of_inTurn _ _ htracked⟩
  case refine_2 =>
    intro s s' hr hr'
    have ⟨hq, _⟩ := (Queued.ofWindow h).reaches hr
    have ⟨taken, hqueue⟩ := hq.queue
    have ⟨_, hle⟩ := hq.reaches hr'
    rw [List.map_drop, hqueue, consumed_of_queue hqueue, List.drop_left]
    exact ⟨rfl, consumed_of_queue hqueue ▸ hle⟩
  case refine_3 =>
    intro s s' hr hf hr' hn
    have ⟨hq, _⟩ := (Queued.ofWindow h).reaches hr
    have ⟨hq', _⟩ := hq.reaches hr'
    have hflagged := (Flagged.raised_now hq hf).reaches hq hr' hn
    exact ⟨hflagged.queued, fun s'' windowGeometry hs hc hlt => hflagged.applied hq' hs hc hn hlt⟩

-- The second serial is zero.
def wrapping : Option Session :=
  run step AnyEvent (ofWindow { displaySerial := 4294967294 })
    [.scheduleConfigure, .timeout, .scheduleConfigure, .timeout, .ackConfigure 1]

theorem acknowledged_consumed_one :
    ∃ s s', (ofWindow { displaySerial := 7 }).step .scheduleConfigure = some s ∧ s.step .timeout = some s' ∧
      ∃ s₁ s₂, s'.step (.ackConfigure 0) = some s₁ ∧ s₁.step (.commit true (some ⟨4, 3⟩)) = some s₂ ∧
        s₁.Consumes (s₁.window.apply true (some ⟨4, 3⟩)).takeAcknowledged :=
  ⟨_, _, rfl, rfl, _, _, rfl, rfl,
    (acknowledged_consumed (w := { displaySerial := 7 }) ⟨rfl, rfl, rfl, rfl⟩).1 _ _ true (some ⟨4, 3⟩)
      (.of_run [.scheduleConfigure, .timeout, .ackConfigure 0] rfl) rfl rfl rfl |>.mpr (by decide)⟩

theorem acknowledged_not_consumed :
    ¬∀ w : XdgSurfaceWindow, w.Idle → ∀ s s' buffer windowGeometry, Reaches step AnyEvent (ofWindow w) s →
      s.step (.commit buffer windowGeometry) = some s' → s.window.isConfigured = true → buffer = true →
        s.Consumes (s.window.apply buffer windowGeometry).takeAcknowledged := by
  intro h
  have ⟨s, s', hs, hstep, hc, ha, hlen⟩ : ∃ s s', wrapping = some s ∧ s.step (.commit true none) = some s' ∧
      s.window.isConfigured = true ∧ 0 ∈ s.window.acknowledgedSerial ∧
      (s.window.apply true none).takeAcknowledged.configureEvents.length = s.window.configureEvents.length :=
    ⟨_, _, rfl, rfl, rfl, rfl, rfl⟩
  have hr := Reaches.of_run _ hs
  have ⟨before, event, hq, _⟩ := (h _ ⟨rfl, rfl, rfl, rfl⟩ s s' true none hr hstep hc rfl).some 0 ha
  have hlen' := congrArg List.length hq
  rw [List.length_append, List.length_cons, hlen] at hlen'
  exact absurd hlen' (by omega)

end Session
end KWin
