import PlasmaModel.ScreenEdges.ScreenEdges
import PlasmaModel.ScreenEdges.Theorems.Edge

namespace KWin

namespace Orientations

-- The edges that are reserved and unreserved when the switching of desktops is.
def switchesAt (o : Orientations) (border : ElectricBorder) : Bool :=
  border.isCorner || o.horizontal && (border.isLeft || border.isRight) ||
    o.vertical && (border.isTop || border.isBottom)

-- Without desktops to switch to, no edge switches.
def appliesTo (o : Orientations) (border : ElectricBorder) : Bool :=
  !o.isEmpty && o.switchesAt border

theorem switchesAt_of_isEmpty {o : Orientations} {border : ElectricBorder} (h : o.isEmpty) :
    o.switchesAt border = border.isCorner := by
  simp_all [isEmpty, switchesAt]

end Orientations

namespace ScreenEdges

variable {Object Slot Action Window : Type}
variable {s : ScreenEdges Object Slot Action Window} {edges : List (Edge Object Slot Action Window)}
variable {border : ElectricBorder} {actions touchActions actions' touchActions' : ElectricBorder → ElectricBorderAction}
variable {k k' : ElectricBorder → ℤ} {f : Edge Object Slot Action Window → Edge Object Slot Action Window}

theorem Edge.forDesktopSwitching_eq {o : Orientations} {e : Edge Object Slot Action Window}
    (same : e.SameEdge (f e)) : e.forDesktopSwitching o f = if o.switchesAt e.border then f e else e := by
  unfold forDesktopSwitching Orientations.switchesAt
  cases hb : e.border <;> cases o.horizontal <;> cases o.vertical <;>
    simp [same.border, hb, ElectricBorder.isCorner, ElectricBorder.isLeft, ElectricBorder.isRight,
      ElectricBorder.isTop, ElectricBorder.isBottom]

theorem Edge.sameEdge_forDesktopSwitching {o : Orientations} {e : Edge Object Slot Action Window}
    (same : e.SameEdge (f e)) : e.SameEdge (e.forDesktopSwitching o f) := by
  rw [forDesktopSwitching_eq same]
  split
  case isTrue => exact same
  case isFalse => exact e.sameEdge_refl

def CountsAll (actions touchActions : ElectricBorder → ElectricBorderAction) (k : ElectricBorder → ℤ)
    (edges : List (Edge Object Slot Action Window)) : Prop :=
  ∀ e ∈ edges, e.client = none → e.Counts actions touchActions (k e.border)

theorem CountsAll.map (h : CountsAll actions touchActions k edges)
    (same : ∀ e : Edge Object Slot Action Window, e.SameEdge (f e))
    (hf : ∀ e : Edge Object Slot Action Window, e ∈ edges → e.client = none →
      e.Counts actions touchActions (k e.border) → (f e).Counts actions' touchActions' (k' e.border)) :
    CountsAll actions' touchActions' k' (edges.map f) := by
  intro e' he hc
  have ⟨e, hm, heq⟩ := List.mem_map.mp he
  subst heq
  rw [(same e).client] at hc
  rw [(same e).border]
  exact hf e hm hc (h e hm hc)

theorem CountsAll.mapBorder (h : CountsAll actions touchActions k s.edges)
    (same : ∀ e : Edge Object Slot Action Window, e.SameEdge (f e))
    (hf : ∀ e : Edge Object Slot Action Window, e ∈ s.edges → e.client = none → e.border = border →
      e.Counts actions touchActions (k e.border) → (f e).Counts actions' touchActions' (k e.border))
    (ha : ∀ b ≠ border, actions' b = actions b) (ht : ∀ b ≠ border, touchActions' b = touchActions b) :
    CountsAll actions' touchActions' k (s.mapBorder border f).edges := by
  refine h.map (fun e => ?_) fun e he hc hk => ?_
  · split
    case isTrue => exact same e
    case isFalse => exact e.sameEdge_refl
  · split
    case isTrue hb => exact hf e he hc hb hk
    case isFalse hb =>
      exact ⟨hk.settled, hk.action.trans (ha _ hb).symm, hk.touchAction.trans (ht _ hb).symm, hk.reserved⟩

theorem CountsAll.reserveDesktopSwitching {isToReserve : Bool} (h : CountsAll actions touchActions k s.edges)
    (hk' : ∀ b, k' b = k b + if s.virtualDesktopLayout.appliesTo b then if isToReserve then 1 else -1 else 0)
    (hp : isToReserve = false → ∀ b, s.virtualDesktopLayout.appliesTo b → 0 < k b) :
    CountsAll actions touchActions k' (s.reserveDesktopSwitching isToReserve s.virtualDesktopLayout).edges := by
  unfold ScreenEdges.reserveDesktopSwitching
  split
  case isTrue ho =>
    intro e he hc
    have := hk' e.border
    rw [Orientations.appliesTo, ho] at this
    simpa [this] using h e he hc
  case isFalse ho =>
    have ha (b) : s.virtualDesktopLayout.appliesTo b = s.virtualDesktopLayout.switchesAt b := by
      simp [Orientations.appliesTo, ho]
    simp only [ha] at hk' hp
    have same (e : Edge Object Slot Action Window) :
        e.SameEdge ((if isToReserve then Edge.reserve else Edge.unreserve) e) := by
      split
      case isTrue => exact e.sameEdge_reserve
      case isFalse => exact e.sameEdge_unreserve
    refine h.map (fun e => Edge.sameEdge_forDesktopSwitching (same e)) fun e he hc hk => ?_
    rw [Edge.forDesktopSwitching_eq (same e), hk' e.border]
    cases hb : s.virtualDesktopLayout.switchesAt e.border
    case false => simpa using hk
    case true =>
      cases isToReserve
      case true => exact hk.reserve
      case false => exact hk.unreserve (hk.reserved_pos (hp rfl _ hb))

theorem reserveDesktopSwitching_eq (isToReserve : Bool) (o : Orientations) :
    s.reserveDesktopSwitching isToReserve o = { s with edges := (s.reserveDesktopSwitching isToReserve o).edges } := by
  unfold ScreenEdges.reserveDesktopSwitching
  split <;> rfl

theorem mapBorder_mapBorder {g : Edge Object Slot Action Window → Edge Object Slot Action Window}
    (same : ∀ e : Edge Object Slot Action Window, e.SameEdge (f e)) :
    ((s.mapBorder border f).mapBorder border g).edges = (s.mapBorder border fun e => g (f e)).edges := by
  simp only [mapBorder, List.map_map]
  refine List.map_congr_left fun e _ => ?_
  by_cases hb : e.border = border
  case pos => simp [hb, (same e).border]
  case neg => simp [hb]

def switching (s : ScreenEdges Object Slot Action Window) (border : ElectricBorder) : ℤ :=
  if s.desktopSwitching && s.virtualDesktopLayout.appliesTo border then 1 else 0

-- Every edge that is there for everybody is reserved for the reasons it has.
def Exact (s : ScreenEdges Object Slot Action Window) : Prop :=
  CountsAll s.actions s.actionForTouchEdge s.switching s.edges

theorem switching_of_not_desktopSwitching (h : s.desktopSwitching = false) : s.switching border = 0 := by
  rw [switching, h, Bool.false_and]
  rfl

theorem switching_nonneg : 0 ≤ s.switching border := by
  unfold switching
  split <;> decide

namespace Exact

variable {newValue : ElectricBorderAction} {object : Object} {slot : Slot} {action : Action}

theorem setActionForBorder (h : s.Exact) : (s.setActionForBorder border newValue).Exact := by
  unfold ScreenEdges.setActionForBorder
  by_cases heq : s.actions border = newValue
  case pos => simpa [heq] using h
  have ha (b) (hb : b ≠ border) : Function.update s.actions border newValue b = s.actions b :=
    Function.update_of_ne hb _ _
  have hu {b} (hb : b = border) : Function.update s.actions border newValue b = newValue := by
    rw [hb, Function.update_self]
  by_cases ho : s.actions border = .none <;> by_cases hn : newValue = .none
  · exact absurd (ho.trans hn.symm) heq
  · simp only [ho, hn, Ne.symm hn, if_true, if_false]
    show CountsAll _ _ _ ((s.mapBorder border Edge.reserve).mapBorder border (Edge.setAction newValue)).edges
    rw [mapBorder_mapBorder Edge.sameEdge_reserve]
    refine h.mapBorder (fun e => e.sameEdge_reserve.setAction) (fun e _ _ hb hk => ?_) ha fun _ _ => rfl
    exact hk.firstAction (hb ▸ ho) hn (hu hb)
  · subst hn
    simp only [ho, if_true, if_false]
    show CountsAll _ _ _ ((s.mapBorder border Edge.unreserve).mapBorder border (Edge.setAction .none)).edges
    rw [mapBorder_mapBorder Edge.sameEdge_unreserve]
    refine h.mapBorder (fun e => e.sameEdge_unreserve.setAction) (fun e _ _ hb hk => ?_) ha fun _ _ => rfl
    exact hk.lastAction switching_nonneg (hb ▸ ho) (hu hb)
  · simp only [heq, ho, hn, if_false]
    refine h.mapBorder (fun e => e.sameEdge_refl.setAction) (fun e _ _ hb hk => ?_) ha fun _ _ => rfl
    exact hk.otherAction (hb ▸ ho) hn (hu hb)

theorem setActionForTouchBorder (h : s.Exact) : (s.setActionForTouchBorder border newValue).Exact := by
  unfold ScreenEdges.setActionForTouchBorder
  by_cases heq : (s.touchCallbacks border).getD .none = newValue
  case pos => simpa [heq] using h
  have ht (v) (b) (hb : b ≠ border) :
      (Function.update s.touchCallbacks border v b).getD .none = (s.touchCallbacks b).getD .none := by
    rw [Function.update_of_ne hb]
  have hu {v b} (hb : b = border) : (Function.update s.touchCallbacks border v b).getD .none = v.getD .none := by
    rw [hb, Function.update_self]
  by_cases ho : (s.touchCallbacks border).getD .none = .none <;> by_cases hn : newValue = .none
  · exact absurd (ho.trans hn.symm) heq
  · simp only [ho, hn, Ne.symm hn, if_true, if_false]
    show CountsAll _ _ _ ((s.mapBorder border Edge.reserve).mapBorder border (Edge.setTouchAction newValue)).edges
    rw [mapBorder_mapBorder Edge.sameEdge_reserve]
    refine h.mapBorder (fun e => e.sameEdge_reserve.trans (Edge.sameEdge_setTouchAction _)) (fun e _ _ hb hk => ?_)
      (fun _ _ => rfl) (ht _)
    exact hk.firstTouchAction (hb ▸ ho) hn (hu hb)
  · subst hn
    simp only [ho, if_true, if_false]
    show CountsAll _ _ _ ((s.mapBorder border Edge.unreserve).mapBorder border (Edge.setTouchAction .none)).edges
    rw [mapBorder_mapBorder Edge.sameEdge_unreserve]
    refine h.mapBorder (fun e => e.sameEdge_unreserve.trans (Edge.sameEdge_setTouchAction _)) (fun e _ _ hb hk => ?_)
      (fun _ _ => rfl) (ht _)
    exact hk.lastTouchAction switching_nonneg (hb ▸ ho) (hu hb)
  · simp only [heq, ho, hn, if_false]
    refine h.mapBorder (fun e => e.sameEdge_setTouchAction) (fun e _ _ hb hk => ?_) (fun _ _ => rfl) (ht _)
    exact hk.otherTouchAction (hb ▸ ho) hn (hu hb)

-- The edges that the old layout has reserved are given up, and those of the new one reserved.
theorem reserveDesktopSwitching {isToReserve : Bool} (h : CountsAll s.actions s.actionForTouchEdge k s.edges)
    (hk : ∀ b, s.switching b = k b + if s.virtualDesktopLayout.appliesTo b then if isToReserve then 1 else -1 else 0)
    (hp : isToReserve = false → ∀ b, s.virtualDesktopLayout.appliesTo b → 0 < k b) :
    (s.reserveDesktopSwitching isToReserve s.virtualDesktopLayout).Exact := by
  have := h.reserveDesktopSwitching hk hp
  rw [reserveDesktopSwitching_eq]
  exact this

theorem setDesktopSwitching (h : s.Exact) {enable : Bool} : (s.setDesktopSwitching enable).Exact := by
  unfold ScreenEdges.setDesktopSwitching
  split
  case isTrue => exact h
  case isFalse he =>
    have h : CountsAll s.actions s.actionForTouchEdge s.switching s.edges := h
    refine reserveDesktopSwitching (s := { s with desktopSwitching := enable }) h (fun b => ?_) fun he b hb => ?_
    · cases enable <;> cases ho : s.virtualDesktopLayout.appliesTo b <;> simp_all [switching]
    · simp_all [switching]

theorem updateLayout (h : s.Exact) {desktopMatrix : Size} : (s.updateLayout desktopMatrix).Exact := by
  unfold ScreenEdges.updateLayout
  simp only
  split
  case isTrue => exact h
  case isFalse =>
    cases hd : s.desktopSwitching
    case false =>
      simp only [hd, Bool.false_eq_true, if_false]
      intro e he hc
      have := h e he hc
      rw [switching_of_not_desktopSwitching hd] at this
      rw [switching_of_not_desktopSwitching rfl]
      exact this
    case true =>
      have hr : CountsAll s.actions s.actionForTouchEdge (fun _ => 0)
          (s.reserveDesktopSwitching false s.virtualDesktopLayout).edges := CountsAll.reserveDesktopSwitching h
        (fun b => by cases ho : s.virtualDesktopLayout.appliesTo b <;> simp [switching, hd, ho])
        fun _ b hb => by simp [switching, hd, hb]
      rw [reserveDesktopSwitching_eq] at hr
      simp only [if_true]
      rw [reserveDesktopSwitching_eq false]
      simp only [hd, if_true]
      exact reserveDesktopSwitching hr (fun b => by simp [switching]) nofun

theorem reserve [DecidableEq Object] (h : s.Exact) (hn : ¬s.Holds border object) :
    (s.reserve border object slot).Exact := by
  refine h.mapBorder (fun e => e.sameEdge_reserveObject _ _) (fun e he hc hb hk => ?_) (fun _ _ => rfl) fun _ _ => rfl
  exact hk.reserveNewObject fun hm => hn ⟨e, he, hc, hb, hm⟩

theorem unreserve [DecidableEq Object] (h : s.Exact) : (s.unreserve border object).Exact :=
  h.mapBorder (fun e => e.sameEdge_unreserveObject _) (fun _ _ _ _ hk => hk.unreserveObject switching_nonneg)
    (fun _ _ => rfl) fun _ _ => rfl

theorem reserveTouch [DecidableEq Action] (h : s.Exact) : (s.reserveTouch border action).Exact :=
  h.mapBorder (fun e => e.sameEdge_reserveTouchCallBack _) (fun _ _ _ _ hk => hk.reserveTouchCallBack)
    (fun _ _ => rfl) fun _ _ => rfl

theorem unreserveTouch [DecidableEq Action] (h : s.Exact) : (s.unreserveTouch border action).Exact :=
  h.mapBorder (fun e => e.sameEdge_unreserveTouchCallBack _)
    (fun _ _ _ _ hk => hk.unreserveTouchCallBack switching_nonneg) (fun _ _ => rfl) fun _ _ => rfl

theorem objectDestroyed [DecidableEq Object] (h : s.Exact) :
    Exact { s with edges := s.edges.map (Edge.unreserveObject object) } :=
  CountsAll.map h (fun e => e.sameEdge_unreserveObject _) fun _ _ _ hk => hk.unreserveObject switching_nonneg

theorem actionDestroyed [DecidableEq Action] (h : s.Exact) :
    Exact { s with edges := s.edges.map (Edge.unreserveTouchCallBack action) } :=
  CountsAll.map h (fun e => e.sameEdge_unreserveTouchCallBack _) fun _ _ _ hk =>
    hk.unreserveTouchCallBack switching_nonneg

theorem checkBlocking {covers : Point → Bool} (h : s.Exact) : (s.checkBlocking covers).Exact :=
  CountsAll.map h (fun e => e.sameEdge_checkBlocking) fun _ _ _ hk => hk.checkBlocking

theorem clientTriggered [DecidableEq Window] {window : Window} (h : s.Exact) : Exact
    { s with edges := s.edges.map fun e => if e.client = some window then e.unreserve else e } := by
  refine CountsAll.map h (fun e => ?_) fun e he hc hk => ?_
  · split
    case isTrue => exact e.sameEdge_unreserve
    case isFalse => exact e.sameEdge_refl
  · rw [if_neg (by simp [hc])]
    exact hk

theorem modify {i : ℕ} (h : s.Exact) (same : ∀ e : Edge Object Slot Action Window, e.SameEdge (f e))
    (hf : ∀ (e : Edge Object Slot Action Window) a t k, e.Counts a t k → (f e).Counts a t k) :
    Exact { s with edges := s.edges.modify i f } := by
  intro e' he hc
  have ⟨j, hj⟩ := List.mem_iff_getElem?.mp he
  rw [List.getElem?_modify] at hj
  have ⟨e, hje, heq⟩ := Option.map_eq_some_iff.mp hj
  have hm := List.mem_of_getElem? hje
  subst heq
  split
  case isTrue hi =>
    rw [if_pos hi, (same e).client] at hc
    have := hf e _ _ _ (h e hm hc)
    rwa [← (same e).border] at this
  case isFalse hi => exact h e hm (by rwa [if_neg hi] at hc)

end Exact

-- The two states differ in the edges of clients alone.
structure SameButClients (s s' : ScreenEdges Object Slot Action Window) : Prop where
  eq  : s' = { s with edges := s'.edges }
  mem : ∀ e : Edge Object Slot Action Window, e.client = none → (e ∈ s'.edges ↔ e ∈ s.edges)

namespace SameButClients

variable {s' s'' : ScreenEdges Object Slot Action Window} {client : Window} {workspace : Workspace Window}

theorem refl (s : ScreenEdges Object Slot Action Window) : s.SameButClients s :=
  ⟨rfl, fun _ _ => Iff.rfl⟩

theorem trans (h : s.SameButClients s') (h' : s'.SameButClients s'') : s.SameButClients s'' := by
  refine ⟨?_, fun e hc => (h'.mem e hc).trans (h.mem e hc)⟩
  rw [h'.eq, h.eq]

theorem foldl {α : Type} {f : ScreenEdges Object Slot Action Window → α → ScreenEdges Object Slot Action Window}
    (hf : ∀ s a, SameButClients s (f s a)) (l : List α) (s) : SameButClients s (l.foldl f s) := by
  induction l generalizing s
  case nil => exact .refl s
  case cons a l ih => exact (hf s a).trans (ih (f s a))

theorem exact (h : s.SameButClients s') (hs : s.Exact) : s'.Exact := by
  rw [h.eq]
  exact fun e he hc => hs e ((h.mem e hc).mp he) hc

theorem deleteEdgeForClient [DecidableEq Window] : s.SameButClients (s.deleteEdgeForClient client) :=
  ⟨rfl, fun e hc => by simp [ScreenEdges.deleteEdgeForClient, hc]⟩

theorem createEdgeForClient : s.SameButClients (s.createEdgeForClient workspace client border) := by
  unfold ScreenEdges.createEdgeForClient
  split
  case isTrue => exact refl s
  case isFalse =>
    split
    case h_1 => exact refl s
    case h_2 p _ =>
      refine ⟨rfl, fun e hc => ?_⟩
      have hn : e ≠ ((s.createEdge workspace.covers p false).setClient client).reserve := by
        intro he
        rw [he, (Edge.sameEdge_reserve _).client, Edge.setClient, Edge.emitIfChanged_eq] at hc
        cases hc
      simp [hn]

theorem reserveClient [DecidableEq Window] {border : Option ElectricBorder} :
    s.SameButClients (s.reserveClient workspace client border) := by
  unfold ScreenEdges.reserveClient
  cases border with
  | none => exact deleteEdgeForClient
  | some => exact deleteEdgeForClient.trans createEdgeForClient

end SameButClients

end ScreenEdges

end KWin
