import PlasmaModel.Gestures.Recognizer

namespace KWin

open EventLog (Follows emissions signalsOf)

inductive Phase
  | idle
  | active

-- A gesture starts, may report progress, and then either triggers or is cancelled, before it may start again.
def Phase.next : Phase → Signal → Option Phase
  | .idle, .started => some .active
  | .active, .progress _ | .active, .deltaProgress _ => some .active
  | .active, .triggered | .active, .cancelled => some .idle
  | _, _ => none

section

variable {α : Type} [DecidableEq α] {active : List α} {gesture : α}

def Phase.of (active : List α) (gesture : α) : Phase :=
  if gesture ∈ active then .active else .idle

theorem Phase.of_mem (h : gesture ∈ active) : Phase.of active gesture = .active :=
  if_pos h

theorem Phase.of_notMem (h : gesture ∉ active) : Phase.of active gesture = .idle :=
  if_neg h

theorem Phase.of_started (hm : gesture ∈ active) :
    [Signal.started].foldlM Phase.next (.of [] gesture) = some (.of active gesture) := by
  rw [Phase.of_mem hm]
  rfl

theorem Phase.of_ended {active' : List α} (last : Signal) (hl : last = .triggered ∨ last = .cancelled)
    (hm : gesture ∈ active) (hn : gesture ∉ active') :
    [last].foldlM Phase.next (.of active gesture) = some (.of active' gesture) := by
  rw [Phase.of_mem hm, Phase.of_notMem hn]
  cases hl
  case inl h => exact h ▸ rfl
  case inr h => exact h ▸ rfl

end

-- The calls after which no gesture of the kind is active.
def GestureEvent.Ends : GestureEvent → Gesture → Prop
  | .endSwipeGesture, .swipe _ | .cancelSwipeGesture, .swipe _ => True
  | .endPinchGesture, .pinch _ | .cancelPinchGesture, .pinch _ => True
  | _, _ => False

namespace GestureRecognizer

variable {s s' : GestureRecognizer} {swipe : SwipeGesture} {pinch : PinchGesture}
variable {swipes swipes' : List SwipeGesture} {pinches pinches' : List PinchGesture}

def phase (s : GestureRecognizer) : Gesture → Phase
  | .swipe gesture => Phase.of s.activeSwipeGestures gesture
  | .pinch gesture => Phase.of s.activePinchGestures gesture

-- Pinches end while no swipe gesture is active.
def EndsAlone (s : GestureRecognizer) (event : GestureEvent) : Prop :=
  event = .endPinchGesture → s.activeSwipeGestures = []

instance {s : GestureRecognizer} {event : GestureEvent} : Decidable (s.EndsAlone event) :=
  inferInstanceAs (Decidable (_ → _))

abbrev Reachable (s : GestureRecognizer) : Prop :=
  Machine.Reaches step EndsAlone {} s

structure Sound (s : GestureRecognizer) : Prop where
  swipes       : s.activeSwipeGestures.Sublist s.swipeGestures
  pinches      : s.activePinchGestures.Sublist s.pinchGestures
  nodupSwipes  : s.swipeGestures.Nodup
  nodupPinches : s.pinchGestures.Nodup
  follows      : Follows Phase.next .idle s.emitted s.phase

namespace Sound

theorem swipe_nodup (h : s.Sound) : s.activeSwipeGestures.Nodup :=
  h.swipes.nodup h.nodupSwipes

theorem pinch_nodup (h : s.Sound) : s.activePinchGestures.Nodup :=
  h.pinches.nodup h.nodupPinches

theorem emitSwipes (h : s.Sound) (signals : SwipeGesture → List Signal) (hs : swipes.Sublist s.swipeGestures)
    (hn : swipes'.Nodup)
    (hsignals : ∀ g ∈ swipes', (signals g).foldlM Phase.next (.of s.activeSwipeGestures g) = some (.of swipes g))
    (hrest : ∀ g ∉ swipes', g ∈ swipes ↔ g ∈ s.activeSwipeGestures) :
    ({ s with activeSwipeGestures := swipes }.emitSwipes signals swipes').Sound := by
  refine { h with swipes := hs, follows := ?_ }
  refine h.follows.append (fun _ _ => Gesture.swipe.inj) hn hsignals ?_
  intro x hx
  cases x
  case swipe g =>
    have hg : g ∉ swipes' := fun hg => hx g hg rfl
    exact if_congr (hrest g hg) rfl rfl
  case pinch => rfl

theorem emitPinches (h : s.Sound) (signals : PinchGesture → List Signal) (hs : pinches.Sublist s.pinchGestures)
    (hn : pinches'.Nodup)
    (hsignals : ∀ g ∈ pinches', (signals g).foldlM Phase.next (.of s.activePinchGestures g) = some (.of pinches g))
    (hrest : ∀ g ∉ pinches', g ∈ pinches ↔ g ∈ s.activePinchGestures) :
    ({ s with activePinchGestures := pinches }.emitPinches signals pinches').Sound := by
  refine { h with pinches := hs, follows := ?_ }
  refine h.follows.append (fun _ _ => Gesture.pinch.inj) hn hsignals ?_
  intro x hx
  cases x
  case swipe => rfl
  case pinch g =>
    have hg : g ∉ pinches' := fun hg => hx g hg rfl
    exact if_congr (hrest g hg) rfl rfl

theorem registerSwipeGesture (h : s.Sound) (he : s.registerSwipeGesture swipe = some s') : s'.Sound := by
  have ⟨hn, he⟩ := Option.ite_none_left_eq_some.mp he
  cases he
  exact { h with
    swipes      := h.swipes.trans (List.sublist_append_left _ _)
    nodupSwipes := h.nodupSwipes.append (List.nodup_singleton _) (List.disjoint_singleton.mpr hn) }

theorem registerPinchGesture (h : s.Sound) (he : s.registerPinchGesture pinch = some s') : s'.Sound := by
  have ⟨hn, he⟩ := Option.ite_none_left_eq_some.mp he
  cases he
  exact { h with
    pinches      := h.pinches.trans (List.sublist_append_left _ _)
    nodupPinches := h.nodupPinches.append (List.nodup_singleton _) (List.disjoint_singleton.mpr hn) }

theorem cancelSwipe (h : s.Sound) (hm : swipe ∈ s.activeSwipeGestures) :
    ({ s with activeSwipeGestures := s.activeSwipeGestures.erase swipe }.emitSwipes
      (fun _ => [.cancelled]) [swipe]).Sound := by
  apply h.emitSwipes _ (List.erase_sublist.trans h.swipes) (List.nodup_singleton swipe)
  case hsignals =>
    intro g hg
    cases List.mem_singleton.mp hg
    exact Phase.of_ended _ (.inr rfl) hm h.swipe_nodup.not_mem_erase
  case hrest => exact fun g hg => List.mem_erase_of_ne (List.mem_singleton.not.mp hg)

theorem cancelPinch (h : s.Sound) (hm : pinch ∈ s.activePinchGestures) :
    ({ s with activePinchGestures := s.activePinchGestures.erase pinch }.emitPinches
      (fun _ => [.cancelled]) [pinch]).Sound := by
  apply h.emitPinches _ (List.erase_sublist.trans h.pinches) (List.nodup_singleton pinch)
  case hsignals =>
    intro g hg
    cases List.mem_singleton.mp hg
    exact Phase.of_ended _ (.inr rfl) hm h.pinch_nodup.not_mem_erase
  case hrest => exact fun g hg => List.mem_erase_of_ne (List.mem_singleton.not.mp hg)

theorem unregisterSwipeGesture (h : s.Sound) : (s.unregisterSwipeGesture swipe).Sound := by
  have hsub : (s.activeSwipeGestures.erase swipe).Sublist (s.swipeGestures.filter (· != swipe)) :=
    h.nodupSwipes.erase_eq_filter swipe ▸ h.swipes.erase swipe
  rw [GestureRecognizer.unregisterSwipeGesture]
  split
  case isTrue hm => exact { h.cancelSwipe hm with swipes := hsub, nodupSwipes := h.nodupSwipes.filter _ }
  case isFalse hm =>
    rw [List.erase_of_not_mem hm] at hsub
    exact { h with swipes := hsub, nodupSwipes := h.nodupSwipes.filter _ }

theorem unregisterPinchGesture (h : s.Sound) : (s.unregisterPinchGesture pinch).Sound := by
  have hsub : (s.activePinchGestures.erase pinch).Sublist (s.pinchGestures.filter (· != pinch)) :=
    h.nodupPinches.erase_eq_filter pinch ▸ h.pinches.erase pinch
  rw [GestureRecognizer.unregisterPinchGesture]
  split
  case isTrue hm => exact { h.cancelPinch hm with pinches := hsub, nodupPinches := h.nodupPinches.filter _ }
  case isFalse hm =>
    rw [List.erase_of_not_mem hm] at hsub
    exact { h with pinches := hsub, nodupPinches := h.nodupPinches.filter _ }

theorem startSwipeGesture (h : s.Sound) (n : Nat) : (s.startSwipeGesture n).1.Sound := by
  have hs : { s with currentFingerCount := n }.Sound := { h with }
  rw [GestureRecognizer.startSwipeGesture]
  split
  case isTrue he =>
    apply hs.emitSwipes _ List.filter_sublist (h.nodupSwipes.filter _)
    case hsignals =>
      intro g hg
      rw [he.1]
      exact Phase.of_started hg
    case hrest =>
      intro g hg
      rw [he.1]
      exact iff_of_false hg List.not_mem_nil
  case isFalse => exact hs

theorem startPinchGesture (h : s.Sound) (n : Nat) : (s.startPinchGesture n).1.Sound := by
  have hs : { s with currentFingerCount := n }.Sound := { h with }
  rw [GestureRecognizer.startPinchGesture]
  split
  case isTrue he =>
    apply hs.emitPinches _ List.filter_sublist (h.nodupPinches.filter _)
    case hsignals =>
      intro g hg
      rw [he.2]
      exact Phase.of_started hg
    case hrest =>
      intro g hg
      rw [he.2]
      exact iff_of_false hg List.not_mem_nil
  case isFalse => exact hs

theorem eliminateSwipeGestures (h : s.Sound) (direction : SwipeDirection) :
    (s.eliminateSwipeGestures direction).Sound := by
  have hs : (if s.activeSwipeGestures = [] then (s.startSwipeGesture s.currentFingerCount).1 else s).Sound := by
    split
    case isTrue => exact h.startSwipeGesture _
    case isFalse => exact h
  apply hs.emitSwipes _ (List.filter_sublist.trans hs.swipes) (hs.swipe_nodup.filter _)
  case hsignals =>
    intro g hg
    have ⟨hm, hd⟩ := List.mem_filter.mp hg
    apply Phase.of_ended _ (.inr rfl) hm
    exact fun hm => of_decide_eq_true hd (of_decide_eq_true (List.mem_filter.mp hm).2)
  case hrest => simp +contextual

theorem eliminatePinchGestures (h : s.Sound) (direction : PinchDirection) :
    (s.eliminatePinchGestures direction).Sound := by
  have hs : (if s.activePinchGestures = [] then (s.startPinchGesture s.currentFingerCount).1 else s).Sound := by
    split
    case isTrue => exact h.startPinchGesture _
    case isFalse => exact h
  apply hs.emitPinches _ (List.filter_sublist.trans hs.pinches) (hs.pinch_nodup.filter _)
  case hsignals =>
    intro g hg
    have ⟨hm, hd⟩ := List.mem_filter.mp hg
    apply Phase.of_ended _ (.inr rfl) hm
    exact fun hm => of_decide_eq_true hd (of_decide_eq_true (List.mem_filter.mp hm).2)
  case hrest => simp +contextual

theorem progressSwipes (h : s.Sound) (progress : SwipeGesture → ℚ) (delta : ℚ × ℚ) :
    (s.emitSwipes (fun g => [.progress (progress g), .deltaProgress delta]) s.activeSwipeGestures).Sound := by
  apply h.emitSwipes _ h.swipes h.swipe_nodup
  case hsignals =>
    intro g hm
    rw [Phase.of_mem hm]
    rfl
  case hrest => exact fun _ _ => .rfl

theorem progressPinches (h : s.Sound) (progress : PinchGesture → ℚ) :
    (s.emitPinches (fun g => [.progress (progress g)]) s.activePinchGestures).Sound := by
  apply h.emitPinches _ h.pinches h.pinch_nodup
  case hsignals =>
    intro g hm
    rw [Phase.of_mem hm]
    rfl
  case hrest => exact fun _ _ => .rfl

theorem endSwipes (h : s.Sound) (last : SwipeGesture → Signal)
    (hl : ∀ g, last g = .triggered ∨ last g = .cancelled) :
    ({ s with activeSwipeGestures := [] }.emitSwipes (fun g => [last g]) s.activeSwipeGestures).Sound := by
  apply h.emitSwipes _ (List.nil_sublist _) h.swipe_nodup
  case hsignals => exact fun g hm => Phase.of_ended _ (hl g) hm List.not_mem_nil
  case hrest => exact fun g hm => iff_of_false List.not_mem_nil hm

theorem endPinches (h : s.Sound) (last : PinchGesture → Signal)
    (hl : ∀ g, last g = .triggered ∨ last g = .cancelled) :
    ({ s with activePinchGestures := [] }.emitPinches (fun g => [last g]) s.activePinchGestures).Sound := by
  apply h.emitPinches _ (List.nil_sublist _) h.pinch_nodup
  case hsignals => exact fun g hm => Phase.of_ended _ (hl g) hm List.not_mem_nil
  case hrest => exact fun g hm => iff_of_false List.not_mem_nil hm

theorem cancelActiveGestures (h : s.Sound) : s.cancelActiveGestures.Sound :=
  { (h.endSwipes _ fun _ => .inr rfl).endPinches _ fun _ => .inr rfl with }

theorem updateSwipeGesture (h : s.Sound) (delta : ℚ × ℚ) : (s.updateSwipeGesture delta).Sound := by
  rw [GestureRecognizer.updateSwipeGesture]
  apply progressSwipes
  apply eliminateSwipeGestures
  apply eliminateSwipeGestures
  exact { h with }

theorem updatePinchGesture (h : s.Sound) (scale : ℚ) : (s.updatePinchGesture scale).Sound := by
  rw [GestureRecognizer.updatePinchGesture]
  apply progressPinches
  apply eliminatePinchGestures
  apply eliminatePinchGestures
  exact { h with }

theorem endSwipeGesture (h : s.Sound) : s.endSwipeGesture.Sound := by
  refine { h.endSwipes _ fun g => ?_ with }
  split
  case isTrue => exact .inl rfl
  case isFalse => exact .inr rfl

theorem endPinchGesture (h : s.Sound) (ha : s.activeSwipeGestures = []) : s.endPinchGesture.Sound := by
  have hs : (_ : GestureRecognizer).Sound := h.endPinches
    (fun g => if g.minimumScaleDeltaReached s.currentScale then .triggered else .cancelled) fun g => by
      split
      case isTrue => exact .inl rfl
      case isFalse => exact .inr rfl
  have hf := hs.follows
  refine { hs with swipes := List.nil_sublist _, follows := fun x => (hf x).trans ?_ }
  cases x
  case swipe => exact congrArg (fun active => some (Phase.of active _)) ha
  case pinch => rfl

theorem step (h : s.Sound) {event : GestureEvent} (ha : s.EndsAlone event) (hs : s.step event = some s') :
    s'.Sound := by
  cases event
  case registerSwipeGesture => exact h.registerSwipeGesture hs
  case registerPinchGesture => exact h.registerPinchGesture hs
  all_goals cases hs
  case unregisterSwipeGesture => exact h.unregisterSwipeGesture
  case unregisterPinchGesture => exact h.unregisterPinchGesture
  case startSwipeGesture => exact h.startSwipeGesture _
  case updateSwipeGesture => exact h.updateSwipeGesture _
  case cancelSwipeGesture => exact { h.cancelActiveGestures with }
  case endSwipeGesture => exact h.endSwipeGesture
  case startPinchGesture => exact h.startPinchGesture _
  case updatePinchGesture => exact h.updatePinchGesture _
  case cancelPinchGesture => exact { h.cancelActiveGestures with }
  case endPinchGesture => exact h.endPinchGesture (ha rfl)

end Sound

theorem Reachable.sound (h : s.Reachable) : s.Sound := by
  apply h.invariant _ fun _ _ _ hs ha he => hs.step ha he
  exact ⟨.slnil, .slnil, .nil, .nil, fun x => by cases x <;> rfl⟩

theorem phase_of_ends {event : GestureEvent} {gesture : Gesture} (he : event.Ends gesture)
    (hs : s.step event = some s') : s'.phase gesture = .idle := by
  cases event <;> cases gesture <;> cases he <;> cases hs <;> rfl

theorem signals_follow (h : s.Reachable) :
    (∀ gesture, (signalsOf s.emitted gesture).foldlM Phase.next .idle = some (s.phase gesture)) ∧
      ∀ event s', s.EndsAlone event → s.step event = some s' → ∀ gesture, event.Ends gesture →
        (signalsOf s'.emitted gesture).foldlM Phase.next .idle = some .idle := by
  have hs := h.sound
  refine ⟨hs.follows, fun event s' ha he gesture hends => ?_⟩
  exact ((hs.step ha he).follows gesture).trans (congrArg some (phase_of_ends hends he))

-- A swipe is cancelled and a pinch of as many fingers follows.
theorem signals_follow_swipe_pinch :
    ∃ s : GestureRecognizer, s.Reachable ∧ s.phase (.swipe ⟨0, 3, .up, by decide⟩) = .idle ∧
      s.phase (.pinch ⟨1, 3, .expanding⟩) = .active ∧
      ((∀ gesture, (signalsOf s.emitted gesture).foldlM Phase.next .idle = some (s.phase gesture)) ∧
        ∀ event s', s.EndsAlone event → s.step event = some s' → ∀ gesture, event.Ends gesture →
          (signalsOf s'.emitted gesture).foldlM Phase.next .idle = some .idle) :=
  have hr : Reachable _ := .of_run [.registerSwipeGesture ⟨0, 3, .up, by decide⟩,
    .registerPinchGesture ⟨1, 3, .expanding⟩, .startSwipeGesture 3, .cancelSwipeGesture, .startPinchGesture 3] rfl
  ⟨_, hr, rfl, rfl, signals_follow hr⟩

-- With swipes and pinches mixed, the end of a pinch makes the recognizer forget a swipe gesture that has started.
theorem signals_follow_startedTwice :
    ∃ s : GestureRecognizer, Machine.Reaches step (fun _ _ => True) {} s ∧ ∃ gesture ∈ s.swipeGestures,
      (signalsOf s.emitted (.swipe gesture)).foldlM Phase.next .idle = none :=
  ⟨_, .of_run [.registerSwipeGesture ⟨0, 3, .up, by decide⟩, .startSwipeGesture 3, .endPinchGesture,
    .startSwipeGesture 3] rfl, ⟨0, 3, .up, by decide⟩, List.mem_singleton_self _, rfl⟩

end GestureRecognizer
end KWin
