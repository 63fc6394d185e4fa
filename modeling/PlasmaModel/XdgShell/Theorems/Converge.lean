import PlasmaModel.XdgShell.Theorems.Acknowledge

namespace KWin

namespace Size

theorem isEmpty_eq_false {size : Size} : size.isEmpty = false ↔ 0 < size.width ∧ 0 < size.height := by
  simp [isEmpty]

theorem grownBy_shrunkBy (size : Size) (margins : Margins) : (size.shrunkBy margins).grownBy margins = size := by
  simp only [grownBy, shrunkBy]
  congr 1 <;> omega

end Size

namespace Rect

variable {r s : Rect} {p : Point} {size : Size}

@[simp]
theorem topLeft_ofSize : (ofSize p size).topLeft = p :=
  rfl

@[simp]
theorem size_ofSize : (ofSize p size).size = size := by
  simp only [ofSize, Rect.size]
  congr 1 <;> omega

theorem ofSize_topLeft_size : ofSize r.topLeft r.size = r := by
  simp only [ofSize, topLeft, Rect.size]
  congr 1 <;> omega

theorem eq_of_topLeft_size (ht : r.topLeft = s.topLeft) (hs : r.size = s.size) : r = s := by
  rw [← r.ofSize_topLeft_size, ht, hs, ofSize_topLeft_size]

end Rect

theorem Gravity.apply_none (rect bounds : Rect) :
    Gravity.none.apply rect bounds = Rect.ofSize bounds.topLeft rect.size := by
  simp only [Gravity.apply, Rect.moveLeft, Rect.moveTop, Rect.ofSize, Rect.topLeft, Rect.size]
  congr 1 <;> omega

namespace Session

open Machine XdgSurfaceWindow

-- The window has been mapped and nothing is going on.
structure Mapped (w : XdgSurfaceWindow) : Prop extends w.Idle where
  isConfigured  : w.isConfigured = true
  isInitialized : w.isInitialized = true
  timer         : w.configureTimer = false
  flags         : w.configureFlags = false
  gravity       : w.nextGravity = .none
  size          : w.frameGeometry.size = w.clientSizeToFrameSize w.windowGeometry
  moveResize    : w.moveResizeGeometry = w.frameGeometry

-- A client that keeps its buffer and takes the size of the configure event it acknowledges, unless that leaves the
-- size to the client.
def Obliging (s : Session) : SessionEvent → Prop
  | .scheduleConfigure => False
  | .commit buffer windowGeometry =>
    buffer = true ∧
      if s.window.acknowledgedSerial.isSome then
        ∀ configure ∈ s.configures[s.acknowledged - 1]?, configure.size.isEmpty = false →
          windowGeometry.getD s.window.windowGeometry = configure.size
      else
        windowGeometry.getD s.window.windowGeometry = s.window.windowGeometry
  | _ => True

-- A client can take the size, and a request that is granted at once does not leave the newest queued event behind
-- with another geometry.
structure Heeded (s : Session) (rect : Rect) : Prop where
  frame  : rect.size.isEmpty = false
  client : (s.window.frameSizeToClientSize rect.size).isEmpty = false
  newest : s.window.frameSizeToClientSize rect.size = s.window.clientSize → s.window.configureTimer = false →
    ∀ event ∈ s.window.configureEvents.getLast?, event.bounds.size = rect.size ∧
      (event.flags = true → event.bounds.topLeft = rect.topLeft)

-- A plain move finds the size of the newest queued event in the geometry it starts from.
def Undisturbed (s : Session) : SessionEvent → Prop
  | .move _ => s.window.configureTimer = false →
    ∀ event ∈ s.window.configureEvents.getLast?, event.bounds.size = s.window.moveResizeGeometry.size
  | .resize size => s.Heeded (Rect.ofSize s.window.moveResizeGeometry.topLeft size)
  | .moveResize rect => s.Heeded rect
  | .commit _ _ => s.InTurn
  | _ => True

def Orderly (s : Session) (event : SessionEvent) : Prop :=
  s.Obliging event ∧ s.Undisturbed event

instance (s : Session) (event : SessionEvent) : Decidable (s.Obliging event) := by
  cases event <;> (unfold Obliging; infer_instance)

instance (s : Session) (rect : Rect) : Decidable (s.Heeded rect) :=
  decidable_of_iff (rect.size.isEmpty = false ∧ (s.window.frameSizeToClientSize rect.size).isEmpty = false ∧
      (s.window.frameSizeToClientSize rect.size = s.window.clientSize → s.window.configureTimer = false →
        ∀ event ∈ s.window.configureEvents.getLast?, event.bounds.size = rect.size ∧
          (event.flags = true → event.bounds.topLeft = rect.topLeft)))
    ⟨fun ⟨hf, hc, hn⟩ => ⟨hf, hc, hn⟩, fun h => ⟨h.frame, h.client, h.newest⟩⟩

instance (s : Session) (event : SessionEvent) : Decidable (s.Undisturbed event) := by
  cases event <;> (unfold Undisturbed; infer_instance)

instance (s : Session) (event : SessionEvent) : Decidable (s.Orderly event) :=
  inferInstanceAs (Decidable (_ ∧ _))

-- The window is on the way to the requested geometry.
structure Converging (s : Session) : Prop extends Tracked s where
  isConfigured  : s.window.isConfigured = true
  isInitialized : s.window.isInitialized = true
  gravity       : s.window.nextGravity = .none
  gravities     : ∀ event ∈ s.window.configureEvents, event.gravity = .none
  inherited     : s.window.configureEvents.Pairwise fun event next => event.flags = true → next.flags = true
  size          : s.window.frameGeometry.size = s.window.clientSizeToFrameSize s.window.windowGeometry
  sizes         : ∀ (i : Nat) event, s.window.configureEvents[i]? = some event →
    ∃ configure, s.configures[s.consumed + i]? = some configure ∧ configure.size.isEmpty = false ∧
      s.window.clientSizeToFrameSize configure.size = event.bounds.size
  scheduled     : s.window.configureTimer = true → s.window.moveResizeGeometry = s.requested ∧
    s.requested.size.isEmpty = false ∧ (s.window.frameSizeToClientSize s.requested.size).isEmpty = false
  position      : s.window.configureTimer = true → s.window.configureFlags = false →
    s.window.frameGeometry.topLeft = s.requested.topLeft ∧ ∀ event ∈ s.window.configureEvents, event.flags = false
  raised        : s.window.configureFlags = true → s.window.configureTimer = true
  settled       : s.window.configureTimer = false → s.window.configureEvents = [] →
    s.window.frameGeometry = s.requested ∧ s.window.moveResizeGeometry = s.requested
  newest        : s.window.configureTimer = false → ∀ event ∈ s.window.configureEvents.getLast?,
    event.bounds.size = s.requested.size ∧ (event.flags = true → event.bounds.topLeft = s.requested.topLeft) ∧
      (event.flags = false → s.window.frameGeometry.topLeft = s.requested.topLeft)

variable {s s' : Session} {w : XdgSurfaceWindow} {event : SessionEvent} {rect : Rect} {mode : MoveResizeMode}

theorem Converging.ofWindow (h : Mapped w) : (ofWindow w).Converging where
  toTracked     := Tracked.ofWindow h.toIdle
  isConfigured  := h.isConfigured
  isInitialized := h.isInitialized
  gravity       := h.gravity
  gravities     := by simp [Session.ofWindow, h.events]
  inherited     := by simp [Session.ofWindow, h.events]
  size          := h.size
  sizes         := by simp [Session.ofWindow, h.events]
  scheduled ht  := absurd (h.timer.symm.trans ht) nofun
  position ht   := absurd (h.timer.symm.trans ht) nofun
  raised hf     := absurd (h.flags.symm.trans hf) nofun
  settled _ _   := ⟨rfl, h.moveResize⟩
  newest        := by simp [Session.ofWindow, h.events]

theorem Undisturbed.commitsInTurn (h : s.Undisturbed event) : s.CommitsInTurn event := by
  cases event
  case commit => exact fun _ _ => h
  all_goals exact trivial

theorem request_same (hg : w.nextGravity = .none) (hr : w.frameSizeToClientSize rect.size = w.clientSize)
    (hm : mode ≠ .move) :
    (w.setMoveResizeGeometry rect).moveResizeInternal rect mode =
      { w with moveResizeGeometry := rect, frameGeometry := rect } := by
  have hf : w.nextGravity.apply (Rect.ofSize rect.topLeft (w.clientSizeToFrameSize w.clientSize)) rect = rect := by
    rw [hg, Gravity.apply_none, Rect.size_ofSize, ← hr, clientSizeToFrameSize, frameSizeToClientSize,
      Size.grownBy_shrunkBy, Rect.ofSize_topLeft_size]
  rw [moveResizeInternal_cases _ rect hm]
  exact (if_pos hr).trans (congrArg (fun frame => { w with moveResizeGeometry := rect, frameGeometry := frame }) hf)

theorem request_other (hr : ¬w.frameSizeToClientSize rect.size = w.clientSize) (hm : mode ≠ .move) :
    (w.setMoveResizeGeometry rect).moveResizeInternal rect mode =
      { w with moveResizeGeometry := rect, configureFlags := true, configureTimer := true } :=
  (moveResizeInternal_cases _ rect hm).trans (if_neg hr)

theorem Converging.granted (h : s.Converging) (hh : s.Heeded rect)
    (hr : s.window.frameSizeToClientSize rect.size = s.window.clientSize)
    (hw : s'.window = { s.window with moveResizeGeometry := rect, frameGeometry := rect })
    (hs : s' = s.request s'.window) (ht : s'.Tracked) : s'.Converging := by
  rw [hs, hw] at ht ⊢
  exact {
    toTracked     := ht
    isConfigured  := h.isConfigured
    isInitialized := h.isInitialized
    gravity       := h.gravity
    gravities     := h.gravities
    inherited     := h.inherited
    size          := by
      have hf : rect.size = s.window.frameGeometry.size := by
        rw [← rect.size.grownBy_shrunkBy s.window.borders]
        exact (congrArg (Size.grownBy · s.window.borders) hr).trans (Size.grownBy_shrunkBy ..)
      exact hf.trans h.size
    sizes         := h.sizes
    scheduled _   := ⟨rfl, hh.frame, hh.client⟩
    position htimer hf := ⟨rfl, (h.position htimer hf).2⟩
    raised        := h.raised
    settled _ _   := ⟨rfl, rfl⟩
    newest htimer event he :=
      have ⟨hs, hf⟩ := hh.newest hr htimer event he
      ⟨hs, hf, fun _ => rfl⟩ }

theorem Converging.delayed (h : s.Converging) (hh : s.Heeded rect)
    (hw : s'.window =
      { s.window with moveResizeGeometry := rect, configureFlags := true, configureTimer := true })
    (hs : s' = s.request s'.window) (ht : s'.Tracked) : s'.Converging := by
  rw [hs, hw] at ht ⊢
  exact {
    toTracked      := ht
    isConfigured   := h.isConfigured
    isInitialized  := h.isInitialized
    gravity        := h.gravity
    gravities      := h.gravities
    inherited      := h.inherited
    size           := h.size
    sizes          := h.sizes
    scheduled _    := ⟨rfl, hh.frame, hh.client⟩
    position _ hf  := nomatch hf
    raised _       := rfl
    settled htimer := nomatch htimer
    newest htimer  := nomatch htimer }

theorem Converging.moved {point : Point} (h : s.Converging) (hu : s.Undisturbed (.move point))
    (ht : (s.request (s.window.move point)).Tracked) : (s.request (s.window.move point)).Converging where
  toTracked     := ht
  isConfigured  := h.isConfigured
  isInitialized := h.isInitialized
  gravity       := h.gravity
  gravities event he := by
    have ⟨event, hm, he⟩ := List.mem_map.mp he
    have hg := h.gravities event hm
    exact he ▸ hg
  inherited     := List.pairwise_map.mpr (h.inherited.imp fun _ hf => nomatch hf)
  size          := Rect.size_ofSize.trans h.size
  sizes i event he := by
    have ⟨event, hm, he⟩ := Option.map_eq_some_iff.mp (List.getElem?_map ▸ he)
    have hc : (s.request (s.window.move point)).consumed = s.consumed := consumed_eq rfl (List.map_map ..)
    have hs := h.sizes i event hm
    exact hc ▸ he ▸ hs
  scheduled htimer := by
    have ⟨hg, hs, hc⟩ := h.scheduled htimer
    have hr : (s.request (s.window.move point)).requested.size = s.requested.size := by
      rw [← hg]
      exact Rect.size_ofSize
    exact ⟨rfl, hr ▸ hs, hr ▸ hc⟩
  position _ _  := by
    refine ⟨rfl, fun event he => ?_⟩
    have ⟨_, _, he⟩ := List.mem_map.mp he
    exact he ▸ rfl
  raised hf     := nomatch hf
  settled htimer he := by
    have ⟨hf, hg⟩ := h.settled htimer (List.map_eq_nil_iff.mp he)
    have hs : s.window.frameGeometry.size = s.window.moveResizeGeometry.size := by rw [hf, hg]
    exact ⟨congrArg (Rect.ofSize point) hs, rfl⟩
  newest htimer event he := by
    have ⟨event, hm, he⟩ := Option.map_eq_some_iff.mp (List.getLast?_map ▸ he)
    have hs := (hu htimer event hm).trans (Rect.size_ofSize (p := point)).symm
    cases he
    exact ⟨hs, nofun, fun _ => rfl⟩

theorem nextClientSize_grown (hf : w.moveResizeGeometry.size.isEmpty = false)
    (hc : (w.frameSizeToClientSize w.moveResizeGeometry.size).isEmpty = false) :
    w.nextClientSize.isEmpty = false ∧ w.clientSizeToFrameSize w.nextClientSize = w.moveResizeGeometry.size := by
  have hn : w.nextClientSize = w.frameSizeToClientSize w.moveResizeGeometry.size := by
    rw [nextClientSize, hf]
    have ⟨hwidth, hheight⟩ := Size.isEmpty_eq_false.mp hc
    simp only [frameSizeToClientSize, Size.shrunkBy] at hwidth hheight
    simp only [Bool.false_eq_true, if_false, frameSizeToClientSize, Size.shrunkBy]
    congr 1 <;> omega
  rw [hn]
  exact ⟨hc, Size.grownBy_shrunkBy ..⟩

theorem nextConfigure_inherits {event : XdgSurfaceConfigure}
    (hi : w.configureEvents.Pairwise fun event next => event.flags = true → next.flags = true)
    (he : event ∈ w.configureEvents) (hf : event.flags = true) : w.nextConfigure.flags = true := by
  have hn := List.ne_nil_of_mem he
  have hl := List.getLast?_eq_some_getLast hn
  have hlast : (w.configureEvents.getLast hn).flags = true := by
    rw [← List.dropLast_append_getLast hn] at hi he
    cases List.mem_append.mp he
    case inl he => exact (List.pairwise_append.mp hi).2.2 _ he _ (List.mem_singleton_self _) hf
    case inr he => exact List.mem_singleton.mp he ▸ hf
  rw [nextConfigure, hl, Option.elim_some, hlast, Bool.true_or]

theorem nextConfigure_raised (hf : w.configureFlags = true) : w.nextConfigure.flags = true := by
  rw [nextConfigure, hf, Bool.or_true]

theorem Converging.sent (h : s.Converging) (htimer : s.window.configureTimer = true)
    (hw : s'.window = s.window.timeout)
    (hs : s' = { s with
      window := s'.window
      configures := s.configures ++ [⟨s'.window.displaySerial, s.window.nextClientSize⟩] })
    (ht : s'.Tracked) : s'.Converging := by
  obtain ⟨hg, hf, hc⟩ := h.scheduled htimer
  rw [timeout_eq] at hw
  rw [hs, hw] at ht ⊢
  exact {
    toTracked     := ht
    isConfigured  := rfl
    isInitialized := h.isInitialized
    gravity       := rfl
    gravities event he := by
      cases List.mem_append.mp he
      case inl he => exact h.gravities event he
      case inr he => exact List.mem_singleton.mp he ▸ h.gravity
    inherited     := by
      refine List.pairwise_append.mpr ⟨h.inherited, List.pairwise_singleton .., ?_⟩
      intro event he next hn hf
      exact List.mem_singleton.mp hn ▸ nextConfigure_inherits h.inherited he hf
    size          := h.size
    sizes i event he := by
      have hcons : s'.consumed = s.consumed := by
        rw [consumed, consumed, hs, hw, List.length_append, List.length_append]
        exact Nat.add_sub_add_right ..
      rw [hs, hw] at hcons
      rw [hcons]
      have hlen := h.toQueued.length
      rw [List.getElem?_append] at he
      split at he
      case isTrue hi =>
        obtain ⟨configure, hc, hsize⟩ := h.sizes i event he
        exact ⟨configure, by rw [List.getElem?_append_left (hlen ▸ Nat.add_lt_add_left hi _), hc], hsize⟩
      case isFalse hi =>
        have hi' : i - s.window.configureEvents.length = 0 := by
          have hlt := (List.getElem?_eq_some_iff.mp he).1
          simpa using hlt
        have hevent := List.mem_singleton.mp (List.mem_of_getElem? he)
        have hsize := nextClientSize_grown (hg ▸ hf) (hg ▸ hc)
        have hi'' : i = s.window.configureEvents.length :=
          Nat.le_antisymm (Nat.sub_eq_zero_iff_le.mp hi') (Nat.not_lt.mp hi)
        refine ⟨_, by rw [hi'', ← hlen, List.getElem?_concat_length], ?_⟩
        subst hevent
        exact hsize
    scheduled htimer := by cases htimer
    position htimer := by cases htimer
    raised hf     := by cases hf
    settled _ he  := by simp at he
    newest _ event he := by
      rw [List.getLast?_concat] at he
      cases he
      refine ⟨congrArg Rect.size hg, fun _ => congrArg Rect.topLeft hg, fun hflag => ?_⟩
      cases hraised : s.window.configureFlags
      case false => exact (h.position htimer hraised).1
      case true => exact absurd ((nextConfigure_raised hraised).symm.trans hflag) (by simp) }

-- What a commit makes of the geometry when it takes some of the queued events.
structure Landed (s : Session) (w' : XdgSurfaceWindow) (taken : List XdgSurfaceConfigure) : Prop where
  queue         : s.window.configureEvents = taken ++ w'.configureEvents
  isConfigured  : w'.isConfigured = s.window.isConfigured
  isInitialized : w'.isInitialized = s.window.isInitialized
  gravity       : w'.nextGravity = s.window.nextGravity
  borders       : w'.borders = s.window.borders
  flags         : w'.configureFlags = s.window.configureFlags
  timer         : w'.configureTimer = s.window.configureTimer
  size          : w'.frameGeometry.size = w'.clientSizeToFrameSize w'.windowGeometry
  stays         : taken = [] → w'.frameGeometry = s.window.frameGeometry
  lands         : ∀ event ∈ taken.getLast?, w'.frameGeometry.size = event.bounds.size ∧
    w'.frameGeometry.topLeft = if event.flags then event.bounds.topLeft else s.window.frameGeometry.topLeft
  moveResize    : w'.moveResizeGeometry = s.window.moveResizeGeometry ∨ w'.moveResizeGeometry = w'.frameGeometry
  synced        : taken ≠ [] → w'.configureTimer = false → w'.configureEvents = [] →
    w'.moveResizeGeometry = w'.frameGeometry
  scheduled     : w'.configureTimer = true → w'.moveResizeGeometry = s.window.moveResizeGeometry

theorem nextFrameGeometry_eq (hg : ∀ event ∈ w.lastAcknowledgedConfigure, event.gravity = .none) :
    w.nextFrameGeometry.size = w.clientSizeToFrameSize w.windowGeometry ∧
      w.nextFrameGeometry.topLeft =
        w.lastAcknowledgedConfigure.elim w.pos fun event => if event.flags then event.bounds.topLeft else w.pos := by
  rw [nextFrameGeometry]
  cases hl : w.lastAcknowledgedConfigure
  case none => exact ⟨Rect.size_ofSize, rfl⟩
  case some event =>
    cases hf : event.flags
    case false => simp [hf]
    case true => simp [hf, hg event hl, Gravity.apply_none]

-- The client commits the size of the event that is taken.
theorem Converging.taken_size {windowGeometry : Option Size} {before after : List XdgSurfaceConfigure}
    {event : XdgSurfaceConfigure} (h : s.Converging) (ho : s.Obliging (.commit true windowGeometry))
    (ha : s.window.acknowledgedSerial.isSome = true) (hq : s.window.configureEvents = before ++ event :: after)
    (hn : s.consumed + before.length + 1 = s.acknowledged) :
    s.window.clientSizeToFrameSize (windowGeometry.getD s.window.windowGeometry) = event.bounds.size := by
  have ⟨configure, hc, hempty, hsize⟩ := h.sizes before.length event (by rw [hq]; simp)
  have ho := ho.2
  rw [if_pos ha, ← hn, Nat.add_sub_cancel, hc] at ho
  rw [ho configure rfl hempty, hsize]

-- The window in the middle of the commit, with the size the client has committed.
theorem Converging.taken_sizes (h : s.Converging) {windowGeometry : Option Size} {m : XdgSurfaceWindow}
    (ho : s.Obliging (.commit true windowGeometry)) (hc : s.Consumes m) :
    (m.lastAcknowledgedConfigure = none → m.configureEvents = s.window.configureEvents ∧
      s.window.clientSizeToFrameSize (windowGeometry.getD s.window.windowGeometry) = s.window.frameGeometry.size) ∧
    ∀ event ∈ m.lastAcknowledgedConfigure,
      s.window.clientSizeToFrameSize (windowGeometry.getD s.window.windowGeometry) = event.bounds.size := by
  cases ha : s.window.acknowledgedSerial
  case none =>
    have ⟨hq, hl⟩ := hc.none ha
    have ho := ho.2
    rw [ha, if_neg nofun] at ho
    refine ⟨fun _ => ⟨hq, by rw [ho, h.size]⟩, fun event he => ?_⟩
    exact nomatch hl.symm.trans he
  case some serial =>
    have ⟨before, event, hq, _, hn, hl⟩ := hc.some serial ha
    refine ⟨fun hnone => (nomatch hl.symm.trans hnone), fun event' he => ?_⟩
    cases hl.symm.trans he
    exact h.taken_size ho (ha ▸ rfl) hq hn

theorem Converging.landed (h : s.Converging) {windowGeometry : Option Size}
    (ho : s.Obliging (.commit true windowGeometry)) (hu : s.InTurn) :
    ∃ taken, s.Landed (s.window.apply true windowGeometry).takeAcknowledged.finishCommit taken := by
  obtain ⟨hnone, hsome⟩ := h.taken_sizes ho
    (consumes_of_inTurn true windowGeometry h.toTracked hu)
  obtain ⟨taken, hq, hl⟩ := takeAcknowledged_suffix h.last true windowGeometry
  obtain ⟨hq', hf', ht', _, _, _⟩ := finishCommit_queue (s.window.apply true windowGeometry).takeAcknowledged
  obtain ⟨hc', hi', hg', hb', hw'⟩ := finishCommit_fields (s.window.apply true windowGeometry).takeAcknowledged
  obtain ⟨hF, hf, ht, hb, _, hw, hh, hG, hc, hi, hg⟩ := takeAcknowledged_fields (s.window.apply true windowGeometry)
  obtain ⟨_, _, _, _, hc₁, _, hf₁⟩ := s.window.apply_queue true windowGeometry
  obtain ⟨hF₁, hG₁, hb₁, hw₁⟩ := s.window.apply_geometry true windowGeometry
  obtain ⟨hi₁, ht₁, hg₁, hh₁⟩ := apply_initialized true windowGeometry h.isInitialized
  generalize (s.window.apply true windowGeometry).takeAcknowledged = m at *
  have hgrav : ∀ event ∈ m.lastAcknowledgedConfigure, event.gravity = .none := by
    intro event he
    rw [hl] at he
    exact h.gravities event (hq ▸ List.mem_append_left _ (List.mem_of_getLast? he))
  obtain ⟨hsize, htop⟩ := nextFrameGeometry_eq hgrav
  have hpos : m.pos = s.window.frameGeometry.topLeft := congrArg Rect.topLeft (hF.trans hF₁)
  have hgrown : m.clientSizeToFrameSize m.windowGeometry =
      s.window.clientSizeToFrameSize (windowGeometry.getD s.window.windowGeometry) := by
    rw [clientSizeToFrameSize, clientSizeToFrameSize, hb, hb₁, hw, hw₁]
  have hgrown' : m.finishCommit.clientSizeToFrameSize m.finishCommit.windowGeometry =
      m.clientSizeToFrameSize m.windowGeometry := by
    rw [clientSizeToFrameSize, clientSizeToFrameSize, hb', hw']
  refine ⟨taken, ?_⟩
  cases hn : m.hasNextWindowGeometry
  case false =>
    obtain ⟨hF', hG'⟩ := finishCommit_last hn
    obtain ⟨hhave, hlast⟩ := Bool.or_eq_false_iff.mp hn
    have hlast : m.lastAcknowledgedConfigure = none := by simpa using hlast
    have htaken : taken = [] := List.getLast?_eq_none_iff.mp (hl.symm.trans hlast)
    exact {
      queue         := hq.trans (congrArg _ hq'.symm)
      isConfigured  := hc'.trans (hc.trans hc₁)
      isInitialized := hi'.trans (hi.trans (hi₁.trans h.isInitialized.symm))
      gravity       := hg'.trans (hg.trans hg₁)
      borders       := hb'.trans (hb.trans hb₁)
      flags         := hf'.trans (hf.trans hf₁)
      timer         := ht'.trans (ht.trans ht₁)
      size          := by rw [hF', hF, hF₁, hgrown', hgrown, (hnone hlast).2]
      stays _       := hF'.trans (hF.trans hF₁)
      lands         := by simp [htaken]
      moveResize    := .inl (hG'.trans (hG.trans hG₁))
      synced hne    := absurd htaken hne
      scheduled _   := hG'.trans (hG.trans hG₁) }
  case true =>
    obtain ⟨hF', hG'⟩ := finishCommit_next hn
    exact {
      queue         := hq.trans (congrArg _ hq'.symm)
      isConfigured  := hc'.trans (hc.trans hc₁)
      isInitialized := hi'.trans (hi.trans (hi₁.trans h.isInitialized.symm))
      gravity       := hg'.trans (hg.trans hg₁)
      borders       := hb'.trans (hb.trans hb₁)
      flags         := hf'.trans (hf.trans hf₁)
      timer         := ht'.trans (ht.trans ht₁)
      size          := by rw [hF', hsize, hgrown']
      stays htaken  := by
        have hlast : m.lastAcknowledgedConfigure = none := by rw [hl, htaken]; rfl
        rw [hF']
        apply Rect.eq_of_topLeft_size
        case ht => rw [htop, hlast, Option.elim_none, hpos]
        case hs => rw [hsize, hgrown, (hnone hlast).2]
      lands event he := by
        have hlast := hl.trans he
        rw [hF', hsize, htop, hlast, hgrown, hsome event hlast, Option.elim_some, hpos]
        exact ⟨rfl, rfl⟩
      moveResize    := by
        rw [hF', hG', hG, hG₁]
        split
        case isTrue => exact .inl rfl
        case isFalse => exact .inr rfl
      synced _ htimer hempty := by
        rw [hF', hG', ← ht', ← hq', htimer, hempty]
        rfl
      scheduled htimer := by
        rw [hG', ← ht', htimer, Bool.true_or, if_pos rfl, hG, hG₁] }

theorem Landed.topLeft {taken : List XdgSurfaceConfigure} (h : s.Landed w taken)
    (hf : ∀ event ∈ taken.getLast?, event.flags = false) :
    w.frameGeometry.topLeft = s.window.frameGeometry.topLeft := by
  cases hl : taken.getLast?
  case none => rw [h.stays (List.getLast?_eq_none_iff.mp hl)]
  case some event => rw [(h.lands event hl).2, hf event hl, if_neg nofun]

theorem Converging.committed {taken : List XdgSurfaceConfigure} (h : s.Converging)
    (hl : s.Landed s'.window taken) (hs : s' = { s with window := s'.window }) (ht : s'.Tracked) : s'.Converging where
  toTracked     := ht
  isConfigured  := hl.isConfigured.trans h.isConfigured
  isInitialized := hl.isInitialized.trans h.isInitialized
  gravity       := hl.gravity.trans h.gravity
  gravities event he := h.gravities event (hl.queue ▸ List.mem_append_right _ he)
  inherited     := (List.pairwise_append.mp (hl.queue ▸ h.inherited)).2.1
  size          := hl.size
  sizes i event he := by
    have hc : s'.configures = s.configures := by rw [hs]
    have hcons : s'.consumed = s.consumed + taken.length := by
      have hlen := h.toQueued.length
      have hlen' := ht.toQueued.length
      rw [hc, hlen, hl.queue, List.length_append, ← Nat.add_assoc] at hlen'
      exact (Nat.add_right_cancel hlen').symm
    obtain ⟨configure, hg, hsize⟩ := h.sizes (taken.length + i) event
      (by rw [hl.queue, List.getElem?_append_right (Nat.le_add_right ..), Nat.add_sub_cancel_left, he])
    have hgrown : s'.window.clientSizeToFrameSize configure.size = s.window.clientSizeToFrameSize configure.size := by
      rw [clientSizeToFrameSize, clientSizeToFrameSize, hl.borders]
    exact ⟨configure, by rw [hcons, hc, Nat.add_assoc, hg], hsize.1, hgrown.trans hsize.2⟩
  scheduled htimer := by
    have hr : s'.requested = s.requested := by rw [hs]
    obtain ⟨hg, hsize, hclient⟩ := h.scheduled (hl.timer.symm.trans htimer)
    rw [hr, frameSizeToClientSize, hl.borders, hl.scheduled htimer]
    exact ⟨hg, hsize, hclient⟩
  position htimer hflags := by
    have hr : s'.requested = s.requested := by rw [hs]
    obtain ⟨htop, hf⟩ := h.position (hl.timer.symm.trans htimer) (hl.flags.symm.trans hflags)
    rw [hl.queue] at hf
    refine ⟨?_, fun event he => hf event (List.mem_append_right _ he)⟩
    rw [hr, ← htop]
    exact hl.topLeft fun event he => hf event (List.mem_append_left _ (List.mem_of_getLast? he))
  raised hflags := hl.timer.trans (h.raised (hl.flags.symm.trans hflags))
  settled htimer hempty := by
    have hr : s'.requested = s.requested := by rw [hs]
    have hq := hl.queue
    rw [hempty, List.append_nil] at hq
    have htimer' := hl.timer.symm.trans htimer
    cases hlast : taken.getLast?
    case none =>
      have htaken := List.getLast?_eq_none_iff.mp hlast
      obtain ⟨hf, hg⟩ := h.settled htimer' (hq.trans htaken)
      have hf' := (hl.stays htaken).trans hf
      rw [hr]
      cases hl.moveResize
      case inl hm => exact ⟨hf', hm.trans hg⟩
      case inr hm => exact ⟨hf', hm.trans hf'⟩
    case some event =>
      obtain ⟨hsize, htop, hstay⟩ := h.newest htimer' event (hq ▸ hlast)
      obtain ⟨hsize', htop'⟩ := hl.lands event hlast
      have hf : s'.window.frameGeometry = s.requested := by
        apply Rect.eq_of_topLeft_size
        case ht =>
          rw [htop']
          cases hflag : event.flags
          case false => exact hstay hflag
          case true => exact htop hflag
        case hs => rw [hsize', hsize]
      have hne : taken ≠ [] := fun hnil => by simp [hnil] at hlast
      rw [hr]
      exact ⟨hf, (hl.synced hne htimer hempty).trans hf⟩
  newest htimer event he := by
    have hr : s'.requested = s.requested := by rw [hs]
    have hq := hl.queue
    have hlast : event ∈ s.window.configureEvents.getLast? := by
      rw [hq, List.getLast?_append, he]
      rfl
    obtain ⟨hsize, htop, hstay⟩ := h.newest (hl.timer.symm.trans htimer) event hlast
    rw [hr]
    refine ⟨hsize, htop, fun hflag => ?_⟩
    rw [← hstay hflag]
    -- The flags are inherited, so none of the taken events has one either.
    apply hl.topLeft
    intro event' he'
    have hinherited := (List.pairwise_append.mp (hq ▸ h.inherited)).2.2 event' (List.mem_of_getLast? he') event
      (List.mem_of_getLast? he)
    exact Bool.eq_false_iff.mpr fun hf => Bool.eq_false_iff.mp hflag (hinherited hf)

theorem Converging.unconcerned {serial : UInt32} {pending : Option UInt32} (h : s.Converging)
    (hw : s'.window = { s.window with displaySerial := serial, pendingAcknowledgedConfigure := pending })
    (hs : s' = { s with window := s'.window, acknowledged := s'.acknowledged }) (ht : s'.Tracked) :
    s'.Converging := by
  rw [hs, hw] at ht ⊢
  exact {
    toTracked     := ht
    isConfigured  := h.isConfigured
    isInitialized := h.isInitialized
    gravity       := h.gravity
    gravities     := h.gravities
    inherited     := h.inherited
    size          := h.size
    sizes         := h.sizes
    scheduled     := h.scheduled
    position      := h.position
    raised        := h.raised
    settled       := h.settled
    newest        := h.newest }

theorem Converging.asked (h : s.Converging) (mode : MoveResizeMode) (hh : s.Heeded rect) (hm : mode ≠ .move)
    (hw : s'.window = (s.window.setMoveResizeGeometry rect).moveResizeInternal rect mode)
    (hs : s' = s.request s'.window) (ht : s'.Tracked) : s'.Converging := by
  by_cases hr : s.window.frameSizeToClientSize rect.size = s.window.clientSize
  case pos => exact h.granted hh hr (hw.trans (request_same h.gravity hr hm)) hs ht
  case neg => exact h.delayed hh (hw.trans (request_other hr hm)) hs ht

theorem Converging.step (h : s.Converging) (ho : s.Orderly event) (hs : s.step event = some s') : s'.Converging := by
  obtain ⟨hobliging, hu⟩ := ho
  have ht := h.toTracked.step hu.commitsInTurn hs
  cases event
  case nextSerial =>
    cases hs
    exact h.unconcerned rfl rfl ht
  case scheduleConfigure => exact hobliging.elim
  case move point =>
    cases hs
    exact h.moved hu ht
  case resize size =>
    cases hs
    exact h.asked .resize hu (by simp) rfl rfl ht
  case moveResize rect =>
    cases hs
    exact h.asked .moveResize hu (by simp) rfl rfl ht
  case timeout =>
    rw [Session.step] at hs
    split at hs
    case isTrue htimer =>
      cases hs
      exact h.sent htimer rfl rfl ht
    case isFalse => cases hs
  case ackConfigure i =>
    rw [Session.step] at hs
    split at hs
    case isTrue =>
      obtain ⟨configure, _, hs⟩ := Option.map_eq_some_iff.mp hs
      cases hs
      exact h.unconcerned rfl rfl ht
    case isFalse => cases hs
  case commit buffer windowGeometry =>
    have hb := hobliging.1
    cases hb
    obtain ⟨window, hw, hs⟩ := Option.map_eq_some_iff.mp hs
    cases hs
    cases commit_cases hw
    case inl hi => simp [h.isConfigured] at hi
    case inr hc =>
      obtain ⟨_, _, hw⟩ := hc
      cases hw
      obtain ⟨taken, hl⟩ := h.landed hobliging hu
      exact h.committed hl rfl ht

theorem geometry_converges (h : Mapped w) (hr : Reaches step Orderly (ofWindow w) s)
    (htimer : s.window.configureTimer = false) (ha : s.acknowledged = s.configures.length)
    (hs : s.window.acknowledgedSerial = none) : s.window.frameGeometry = s.requested := by
  have hc := hr.invariant (Converging.ofWindow h) fun _ _ _ hc ho hs => hc.step ho hs
  have hlen := hc.toQueued.length
  rw [← ha, ← hc.spent hs] at hlen
  have hempty := List.length_eq_zero_iff.mp (Nat.left_eq_add.mp hlen)
  exact (hc.settled htimer hempty).1

def mappedWindow : XdgSurfaceWindow where
  displaySerial       := 7
  buffer              := true
  firstBufferAttached := true
  isConfigured        := true
  isInitialized       := true
  windowGeometry      := ⟨100, 100⟩
  frameGeometry       := ⟨0, 0, 100, 100⟩
  moveResizeGeometry  := ⟨0, 0, 100, 100⟩

theorem mappedWindow_mapped : Mapped mappedWindow :=
  ⟨⟨rfl, rfl, rfl, rfl⟩, rfl, rfl, rfl, rfl, rfl, rfl, rfl⟩

theorem geometry_converges_resized :
    ∃ s, Reaches step Orderly (ofWindow mappedWindow) s ∧ s.requested = ⟨5, 5, 205, 155⟩ ∧
      s.window.frameGeometry = s.requested :=
  have hr : Reaches step Orderly (ofWindow mappedWindow) _ := Reaches.of_run
    [.moveResize ⟨10, 10, 210, 160⟩, .timeout, .move ⟨5, 5⟩, .ackConfigure 0, .commit true (some ⟨200, 150⟩)] rfl
  ⟨_, hr, rfl, geometry_converges mappedWindow_mapped hr rfl rfl rfl⟩

-- The second request is granted at once, and then the first one overrides it.
theorem geometry_overridden :
    ¬∀ w, Mapped w → ∀ s, Reaches step Obliging (ofWindow w) s → s.window.configureTimer = false →
      s.acknowledged = s.configures.length → s.window.acknowledgedSerial = none →
        s.window.frameGeometry = s.requested := by
  intro h
  have ⟨s, hs, htimer, ha, hserial, hne⟩ : ∃ s, run step Obliging (ofWindow mappedWindow)
      [.moveResize ⟨10, 10, 210, 160⟩, .timeout, .moveResize ⟨50, 50, 150, 150⟩, .ackConfigure 0,
        .commit true (some ⟨200, 150⟩)] = some s ∧ s.window.configureTimer = false ∧
      s.acknowledged = s.configures.length ∧ s.window.acknowledgedSerial = none ∧
      s.window.frameGeometry ≠ s.requested :=
    ⟨_, rfl, rfl, rfl, rfl, by decide⟩
  exact hne (h _ mappedWindow_mapped s (Reaches.of_run _ hs) htimer ha hserial)

end Session
end KWin
