import PlasmaModel.Lib.Hash
import PlasmaModel.ScreenEdges.Edge

namespace KWin

def ElectricBorderAction.reasons (action : ElectricBorderAction) : ℤ :=
  if action = .none then 0 else 1

@[simp] theorem ElectricBorderAction.reasons_none : ElectricBorderAction.none.reasons = 0 := rfl

theorem ElectricBorderAction.reasons_of_ne {action : ElectricBorderAction} (h : action ≠ .none) : action.reasons = 1 :=
  if_neg h

theorem ElectricBorderAction.reasons_nonneg (action : ElectricBorderAction) : 0 ≤ action.reasons := by
  unfold reasons
  split <;> decide

namespace ScreenEdges.Edge

variable {Object Slot Action Window : Type}
variable {e oldEdge : Edge Object Slot Action Window} {object : Object} {slot : Slot} {callback : Action}
variable {actions touchActions : ElectricBorder → ElectricBorderAction} {k : ℤ}

-- The reasons to reserve an edge that the edge knows of itself.
def ownReasons (e : Edge Object Slot Action Window) : ℤ :=
  e.action.reasons + e.touchAction.reasons + e.callBacks.entries.length + e.touchCallBacks.length

structure Settled (e : Edge Object Slot Action Window) : Prop where
  nonneg  : 0 ≤ e.reserved
  gesture : e.hasGesture = (e.isReserved && e.activatesForTouchGesture)
  idle    : e.reserved = 0 → e.approaching = false

-- The edge is reserved for its own reasons and `k` times more.
structure Counts (actions touchActions : ElectricBorder → ElectricBorderAction) (k : ℤ)
    (e : Edge Object Slot Action Window) : Prop where
  settled     : e.Settled
  action      : e.action = actions e.border
  touchAction : e.touchAction = touchActions e.border
  reserved    : e.reserved = e.ownReasons + k

theorem ownReasons_nonneg : 0 ≤ e.ownReasons := by
  have := e.action.reasons_nonneg
  have := e.touchAction.reasons_nonneg
  unfold ownReasons
  omega

theorem reserve_eq : e.reserve = { e with
    reserved := e.reserved + 1
    hasGesture := (e.reserved = 0 && e.activatesForTouchGesture) || e.hasGesture } := by
  have ha (n) : activatesForTouchGesture { e with reserved := n } = e.activatesForTouchGesture := rfl
  have hr : e.reserved + 1 = 1 ↔ e.reserved = 0 := by omega
  by_cases h : e.reserved = 0
  case pos => cases hb : e.activatesForTouchGesture <;> simp [reserve, activate, addGesture, ha, h, hb]
  case neg => simp [reserve, hr, h]

theorem unreserve_eq : e.unreserve = { e with
    reserved := e.reserved - 1
    approaching := e.reserved ≠ 1 && e.approaching
    hasGesture := e.reserved ≠ 1 && e.hasGesture } := by
  have hr : e.reserved - 1 = 0 ↔ e.reserved = 1 := by omega
  by_cases h : e.reserved = 1 <;> simp [unreserve, stopApproaching, deactivate, removeGesture, hr, h]

theorem emitIfChanged_eq {wasTouch : Bool} : emitIfChanged wasTouch e = { e with
    hasGesture :=
      if wasTouch = e.activatesForTouchGesture ∨ e.isReserved = false then e.hasGesture
      else e.activatesForTouchGesture } := by
  unfold emitIfChanged touchGestureChanged addGesture removeGesture
  cases wasTouch <;> cases h : e.activatesForTouchGesture <;> cases e.isReserved <;> simp

namespace Settled

theorem reserve (h : e.Settled) : e.reserve.Settled := by
  have hn := h.nonneg
  have hg := h.gesture
  rw [reserve_eq]
  refine ⟨by simp; omega, ?gesture, fun hr => by simp at hr; omega⟩
  case gesture =>
    have hr : e.reserved + 1 ≠ 0 := by omega
    have ha (n g) : activatesForTouchGesture { e with reserved := n, hasGesture := g } =
      e.activatesForTouchGesture := rfl
    by_cases h0 : e.reserved = 0 <;> simp [isReserved, h0, hr, hg, ha]

theorem unreserve (h : e.Settled) (hr : 0 < e.reserved) : e.unreserve.Settled := by
  have hg := h.gesture
  rw [unreserve_eq]
  refine ⟨by simp; omega, ?gesture, fun hr => ?idle⟩
  case gesture =>
    have ha (n a g) : activatesForTouchGesture { e with reserved := n, approaching := a, hasGesture := g } =
      e.activatesForTouchGesture := rfl
    have hr : e.reserved ≠ 0 := by omega
    have h1 : e.reserved - 1 = 0 ↔ e.reserved = 1 := by omega
    by_cases h : e.reserved = 1 <;> simp [isReserved, hg, ha, hr, h, h1]
  case idle =>
    have h1 : e.reserved = 1 := by simp at hr; omega
    simp [h1]

-- The edge is settled as soon as it has told what changed.
theorem emitIfChanged {wasTouch : Bool} (hn : 0 ≤ e.reserved) (hi : e.reserved = 0 → e.approaching = false)
    (hg : e.hasGesture = (e.isReserved && wasTouch)) : (emitIfChanged wasTouch e).Settled := by
  rw [emitIfChanged_eq]
  refine ⟨hn, ?_, hi⟩
  show (if wasTouch = e.activatesForTouchGesture ∨ e.isReserved = false then e.hasGesture
    else e.activatesForTouchGesture) = (e.isReserved && e.activatesForTouchGesture)
  rw [hg]
  cases e.isReserved <;> cases wasTouch <;> cases e.activatesForTouchGesture <;> simp

end Settled

namespace Counts

theorem reserved_pos (h : e.Counts actions touchActions k) (hk : 0 < k) : 0 < e.reserved := by
  have := h.reserved
  have := ownReasons_nonneg (e := e)
  omega

theorem reserve (h : e.Counts actions touchActions k) : e.reserve.Counts actions touchActions (k + 1) := by
  refine ⟨h.settled.reserve, ?_, ?_, ?_⟩ <;> rw [reserve_eq]
  · exact h.action
  · exact h.touchAction
  · have := h.reserved
    simp only [ownReasons] at this ⊢
    omega

theorem unreserve (h : e.Counts actions touchActions k) (hr : 0 < e.reserved) :
    e.unreserve.Counts actions touchActions (k - 1) := by
  refine ⟨h.settled.unreserve hr, ?_, ?_, ?_⟩ <;> rw [unreserve_eq]
  · exact h.action
  · exact h.touchAction
  · have := h.reserved
    simp only [ownReasons] at this ⊢
    omega

-- A reservation of an object that has one already leaves the edge reserved for no reason.
theorem reserveObject [DecidableEq Object] (h : e.Counts actions touchActions k) (object : Object) (slot : Slot) :
    (e.reserveObject object slot).Counts actions touchActions
      (k + 1 + e.callBacks.entries.length - (e.callBacks.insert object slot).entries.length) := by
  have hc : Counts actions touchActions
      (k + e.callBacks.entries.length - (e.callBacks.insert object slot).entries.length)
      { e with callBacks := e.callBacks.insert object slot } := by
    refine ⟨⟨h.settled.nonneg, h.settled.gesture, h.settled.idle⟩, h.action, h.touchAction, ?_⟩
    have := h.reserved
    simp only [ownReasons] at this ⊢
    omega
  have := hc.reserve
  rwa [show k + e.callBacks.entries.length - (e.callBacks.insert object slot).entries.length + 1 =
    k + 1 + e.callBacks.entries.length - (e.callBacks.insert object slot).entries.length by omega] at this

theorem reserveNewObject [DecidableEq Object] (h : e.Counts actions touchActions k) (hm : object ∉ e.callBacks) :
    (e.reserveObject object slot).Counts actions touchActions k := by
  have hr := h.reserveObject object slot
  have hk : k + 1 + e.callBacks.entries.length - (e.callBacks.insert object slot).entries.length = k := by
    rw [Hash.length_insert_of_notMem hm]
    omega
  rwa [hk] at hr

theorem unreserveObject [DecidableEq Object] (h : e.Counts actions touchActions k) (hk : 0 ≤ k) :
    (e.unreserveObject object).Counts actions touchActions k := by
  unfold Edge.unreserveObject
  split
  case isFalse => exact h
  case isTrue hm =>
    have hl := Hash.length_erase_of_mem hm
    have hc : Counts actions touchActions (k + 1) { e with callBacks := e.callBacks.erase object } := by
      refine ⟨⟨h.settled.nonneg, h.settled.gesture, h.settled.idle⟩, h.action, h.touchAction, ?_⟩
      have := h.reserved
      simp only [ownReasons] at this ⊢
      omega
    have hr := hc.unreserve (hc.reserved_pos (by omega))
    rwa [Int.add_sub_cancel] at hr

theorem emitIfChanged {wasTouch : Bool} (hn : 0 ≤ e.reserved) (hi : e.reserved = 0 → e.approaching = false)
    (hg : e.hasGesture = (e.isReserved && wasTouch)) (ha : e.action = actions e.border)
    (ht : e.touchAction = touchActions e.border) (hr : e.reserved = e.ownReasons + k) :
    (Edge.emitIfChanged wasTouch e).Counts actions touchActions k := by
  refine ⟨.emitIfChanged hn hi hg, ?_, ?_, ?_⟩ <;> rw [emitIfChanged_eq]
  · exact ha
  · exact ht
  · exact hr

theorem reserveTouchCallBack [DecidableEq Action] (h : e.Counts actions touchActions k) :
    (e.reserveTouchCallBack callback).Counts actions touchActions k := by
  unfold Edge.reserveTouchCallBack
  split
  case isTrue => exact h
  case isFalse =>
    have hc : Counts actions touchActions (k - 1) (Edge.emitIfChanged e.activatesForTouchGesture
        { e with touchCallBacks := e.touchCallBacks ++ [callback] }) := by
      refine .emitIfChanged h.settled.nonneg h.settled.idle h.settled.gesture h.action h.touchAction ?_
      have := h.reserved
      simp only [ownReasons, List.length_append, List.length_singleton] at this ⊢
      omega
    have := hc.reserve
    rwa [Int.sub_add_cancel] at this

theorem unreserveTouchCallBack [DecidableEq Action] (h : e.Counts actions touchActions k) (hk : 0 ≤ k) :
    (e.unreserveTouchCallBack callback).Counts actions touchActions k := by
  unfold Edge.unreserveTouchCallBack
  split
  case isFalse => exact h
  case isTrue hm =>
    have hl := List.length_erase_add_one hm
    have hc : Counts actions touchActions (k + 1) (Edge.emitIfChanged e.activatesForTouchGesture
        { e with touchCallBacks := e.touchCallBacks.erase callback }) := by
      refine .emitIfChanged h.settled.nonneg h.settled.idle h.settled.gesture h.action h.touchAction ?_
      have := h.reserved
      simp only [ownReasons] at this ⊢
      omega
    have hr := hc.unreserve (hc.reserved_pos (by omega))
    rwa [Int.add_sub_cancel] at hr

theorem setAction {actions' : ElectricBorder → ElectricBorderAction} {action : ElectricBorderAction}
    (h : e.Counts actions touchActions k) (ha : actions' e.border = action) :
    (e.setAction action).Counts actions' touchActions
      (k + (actions e.border).reasons - action.reasons) := by
  refine ⟨⟨h.settled.nonneg, h.settled.gesture, h.settled.idle⟩, ha.symm, h.touchAction, ?_⟩
  have hr := h.reserved
  rw [ownReasons, h.action] at hr
  simp only [Edge.setAction, ownReasons]
  omega

theorem setTouchAction {touchActions' : ElectricBorder → ElectricBorderAction} {action : ElectricBorderAction}
    (h : e.Counts actions touchActions k) (ht : touchActions' e.border = action) :
    (e.setTouchAction action).Counts actions touchActions'
      (k + (touchActions e.border).reasons - action.reasons) := by
  refine .emitIfChanged h.settled.nonneg h.settled.idle h.settled.gesture h.action ht.symm ?_
  have hr := h.reserved
  rw [ownReasons, h.touchAction] at hr
  simp only [ownReasons]
  omega

theorem checkBlocking {remainActive : Bool} {covers : Point → Bool} (h : e.Counts actions touchActions k) :
    (e.checkBlocking remainActive covers).Counts actions touchActions k := by
  unfold Edge.checkBlocking
  simp only
  split
  case isTrue => exact h
  case isFalse =>
    split
    case isTrue =>
      exact .emitIfChanged h.settled.nonneg (fun _ => rfl) h.settled.gesture h.action h.touchAction h.reserved
    case isFalse =>
      exact .emitIfChanged h.settled.nonneg h.settled.idle h.settled.gesture h.action h.touchAction h.reserved

theorem startApproaching (h : e.Counts actions touchActions k) (hr : e.isReserved) :
    e.startApproaching.Counts actions touchActions k :=
  ⟨⟨h.settled.nonneg, h.settled.gesture, fun h0 => by simp_all [isReserved, Edge.startApproaching]⟩, h.action,
    h.touchAction, h.reserved⟩

theorem stopApproaching (h : e.Counts actions touchActions k) : e.stopApproaching.Counts actions touchActions k :=
  ⟨⟨h.settled.nonneg, h.settled.gesture, fun _ => rfl⟩, h.action, h.touchAction, h.reserved⟩

theorem reserved_eq_iff {sought : ℤ} (h : e.Counts actions touchActions k) :
    e.reserved = e.ownReasons + sought ↔ k = sought := by
  rw [h.reserved, Int.add_right_inj]

end Counts

-- What no function changes that reserves an edge or withdraws a reservation.
structure SameEdge (e e' : Edge Object Slot Action Window) : Prop where
  border : e'.border = e.border
  client : e'.client = e.client

namespace SameEdge

theorem trans {e₁ e₂ e₃ : Edge Object Slot Action Window} (h : e₁.SameEdge e₂) (h' : e₂.SameEdge e₃) :
    e₁.SameEdge e₃ :=
  ⟨h'.border.trans h.border, h'.client.trans h.client⟩

theorem reserve (h : e.SameEdge oldEdge) : e.SameEdge oldEdge.reserve :=
  h.trans (by rw [reserve_eq]; exact ⟨rfl, rfl⟩)

theorem unreserve (h : e.SameEdge oldEdge) : e.SameEdge oldEdge.unreserve :=
  h.trans (by rw [unreserve_eq]; exact ⟨rfl, rfl⟩)

theorem emitIfChanged {wasTouch : Bool} (h : e.SameEdge oldEdge) : e.SameEdge (emitIfChanged wasTouch oldEdge) :=
  h.trans (by rw [emitIfChanged_eq]; exact ⟨rfl, rfl⟩)

end SameEdge

section

variable (e object slot callback)

theorem sameEdge_refl : e.SameEdge e :=
  ⟨rfl, rfl⟩

theorem sameEdge_reserve : e.SameEdge e.reserve :=
  e.sameEdge_refl.reserve

theorem sameEdge_unreserve : e.SameEdge e.unreserve :=
  e.sameEdge_refl.unreserve

theorem sameEdge_reserveObject [DecidableEq Object] : e.SameEdge (e.reserveObject object slot) :=
  SameEdge.reserve ⟨rfl, rfl⟩

theorem sameEdge_unreserveObject [DecidableEq Object] : e.SameEdge (e.unreserveObject object) := by
  unfold unreserveObject
  split
  case isTrue => exact SameEdge.unreserve ⟨rfl, rfl⟩
  case isFalse => exact e.sameEdge_refl

theorem sameEdge_reserveTouchCallBack [DecidableEq Action] : e.SameEdge (e.reserveTouchCallBack callback) := by
  unfold reserveTouchCallBack
  split
  case isTrue => exact e.sameEdge_refl
  case isFalse => exact SameEdge.reserve (SameEdge.emitIfChanged ⟨rfl, rfl⟩)

theorem sameEdge_unreserveTouchCallBack [DecidableEq Action] : e.SameEdge (e.unreserveTouchCallBack callback) := by
  unfold unreserveTouchCallBack
  split
  case isTrue => exact SameEdge.unreserve (SameEdge.emitIfChanged ⟨rfl, rfl⟩)
  case isFalse => exact e.sameEdge_refl

theorem SameEdge.setAction {action : ElectricBorderAction} (h : e.SameEdge oldEdge) :
    e.SameEdge (oldEdge.setAction action) :=
  h.trans ⟨rfl, rfl⟩

theorem sameEdge_setTouchAction {action : ElectricBorderAction} : e.SameEdge (e.setTouchAction action) :=
  SameEdge.emitIfChanged ⟨rfl, rfl⟩

theorem sameEdge_checkBlocking {remainActive : Bool} {covers : Point → Bool} :
    e.SameEdge (e.checkBlocking remainActive covers) := by
  unfold checkBlocking
  simp only
  split
  case isTrue => exact e.sameEdge_refl
  case isFalse => split <;> exact SameEdge.emitIfChanged ⟨rfl, rfl⟩

theorem callBacks_reserveObject [DecidableEq Object] :
    (e.reserveObject object slot).callBacks = e.callBacks.insert object slot := by
  rw [reserveObject, reserve_eq]

theorem callBacks_reserveTouchCallBack [DecidableEq Action] :
    (e.reserveTouchCallBack callback).callBacks = e.callBacks := by
  unfold reserveTouchCallBack
  split
  case isTrue => rfl
  case isFalse => simp only [reserve_eq, emitIfChanged_eq]

theorem callBacks_reserve : e.reserve.callBacks = e.callBacks := by
  rw [reserve_eq]

theorem callBacks_setTouchAction {action : ElectricBorderAction} :
    (e.setTouchAction action).callBacks = e.callBacks := by
  rw [setTouchAction, emitIfChanged_eq]

theorem callBacks_checkBlocking {remainActive : Bool} {covers : Point → Bool} :
    (e.checkBlocking remainActive covers).callBacks = e.callBacks := by
  unfold checkBlocking
  simp only [emitIfChanged_eq]
  split
  case isTrue => rfl
  case isFalse => split <;> rfl

end

section Actions

variable {actions' touchActions' : ElectricBorder → ElectricBorderAction} {action : ElectricBorderAction}

namespace Counts

theorem firstAction (h : e.Counts actions touchActions k) (ho : actions e.border = .none) (hn : action ≠ .none)
    (ha : actions' e.border = action) : (e.reserve.setAction action).Counts actions' touchActions k := by
  have hb := e.sameEdge_reserve.border
  have := h.reserve.setAction (hb ▸ ha)
  rwa [hb, ho, ElectricBorderAction.reasons_none, ElectricBorderAction.reasons_of_ne hn, Int.add_zero,
    Int.add_sub_cancel] at this

theorem lastAction (h : e.Counts actions touchActions k) (hk : 0 ≤ k) (ho : actions e.border ≠ .none)
    (ha : actions' e.border = .none) : (e.unreserve.setAction .none).Counts actions' touchActions k := by
  have hb := e.sameEdge_unreserve.border
  have hp : 0 < e.reserved := by
    have hr := h.reserved
    have := e.touchAction.reasons_nonneg
    rw [ownReasons, h.action, ElectricBorderAction.reasons_of_ne ho] at hr
    omega
  have := (h.unreserve hp).setAction (hb ▸ ha)
  rwa [hb, ElectricBorderAction.reasons_none, ElectricBorderAction.reasons_of_ne ho, Int.sub_add_cancel,
    Int.sub_zero] at this

theorem otherAction (h : e.Counts actions touchActions k) (ho : actions e.border ≠ .none) (hn : action ≠ .none)
    (ha : actions' e.border = action) : (e.setAction action).Counts actions' touchActions k := by
  have := h.setAction ha
  rwa [ElectricBorderAction.reasons_of_ne ho, ElectricBorderAction.reasons_of_ne hn, Int.add_sub_cancel] at this

theorem firstTouchAction (h : e.Counts actions touchActions k) (ho : touchActions e.border = .none)
    (hn : action ≠ .none) (ht : touchActions' e.border = action) :
    (e.reserve.setTouchAction action).Counts actions touchActions' k := by
  have hb := e.sameEdge_reserve.border
  have := h.reserve.setTouchAction (hb ▸ ht)
  rwa [hb, ho, ElectricBorderAction.reasons_none, ElectricBorderAction.reasons_of_ne hn, Int.add_zero,
    Int.add_sub_cancel] at this

theorem lastTouchAction (h : e.Counts actions touchActions k) (hk : 0 ≤ k) (ho : touchActions e.border ≠ .none)
    (ht : touchActions' e.border = .none) : (e.unreserve.setTouchAction .none).Counts actions touchActions' k := by
  have hb := e.sameEdge_unreserve.border
  have hp : 0 < e.reserved := by
    have hr := h.reserved
    have := e.action.reasons_nonneg
    rw [ownReasons, h.touchAction, ElectricBorderAction.reasons_of_ne ho] at hr
    omega
  have := (h.unreserve hp).setTouchAction (hb ▸ ht)
  rwa [hb, ElectricBorderAction.reasons_none, ElectricBorderAction.reasons_of_ne ho, Int.sub_add_cancel,
    Int.sub_zero] at this

theorem otherTouchAction (h : e.Counts actions touchActions k) (ho : touchActions e.border ≠ .none)
    (hn : action ≠ .none) (ht : touchActions' e.border = action) :
    (e.setTouchAction action).Counts actions touchActions' k := by
  have := h.setTouchAction ht
  rwa [ElectricBorderAction.reasons_of_ne ho, ElectricBorderAction.reasons_of_ne hn, Int.add_sub_cancel] at this

end Counts

end Actions

end ScreenEdges.Edge

end KWin
