import PlasmaModel.Lib.Runs
import PlasmaModel.ScreenEdges.Theorems.Counting

namespace KWin.ScreenEdges

variable {Object Slot Action Window : Type}
variable {s : ScreenEdges Object Slot Action Window} {e e' e'' oldEdge : Edge Object Slot Action Window}
variable {covers : Point → Bool} {p : Place}

-- An edge that is there for everybody and of which no object holds a reservation.
structure Edge.Fresh (border : ElectricBorder) (actions touchActions : ElectricBorder → ElectricBorderAction) (k : ℤ)
    (e : Edge Object Slot Action Window) : Prop where
  border    : e.border = border
  client    : e.client = none
  callBacks : e.callBacks = ∅
  counts    : e.Counts actions touchActions k

theorem fresh_createEdge (s : ScreenEdges Object Slot Action Window) (covers : Point → Bool) (p : Place) :
    (s.createEdge covers p true).Fresh p.border s.actions s.actionForTouchEdge
    (if s.desktopSwitching && s.virtualDesktopLayout.switchesAt p.border then 1 else 0) := by
  let e₀ : Edge Object Slot Action Window := { border := p.border, geometry := p.geometry }
  have h₀ : e₀.Fresh p.border (fun _ => .none) (fun _ => .none) 0 :=
    ⟨rfl, rfl, rfl, ⟨⟨Int.le_refl 0, rfl, fun _ => rfl⟩, rfl, rfl, rfl⟩⟩
  let e₁ := if s.actions p.border ≠ .none then e₀.reserve.setAction (s.actions p.border) else e₀
  have h₁ : e₁.Fresh p.border s.actions (fun _ => .none) 0 := by
    by_cases ha : s.actions p.border = .none
    case pos =>
      simp only [e₁, ne_eq, ha, not_true_eq_false, if_false]
      exact ⟨rfl, rfl, rfl, ⟨h₀.counts.settled, ha.symm, rfl, rfl⟩⟩
    case neg =>
      simp only [e₁, ne_eq, ha, not_false_eq_true, if_true]
      have hs : e₀.SameEdge (e₀.reserve.setAction (s.actions p.border)) := e₀.sameEdge_reserve.setAction
      exact ⟨hs.border, hs.client, e₀.callBacks_reserve, h₀.counts.firstAction rfl ha rfl⟩
  let e₂ := if s.actionForTouchEdge e₁.border ≠ .none then
    e₁.reserve.setTouchAction (s.actionForTouchEdge e₁.border) else e₁
  have h₂ : e₂.Fresh p.border s.actions s.actionForTouchEdge 0 := by
    have hb := h₁.border
    by_cases ht : s.actionForTouchEdge p.border = .none
    case pos =>
      simp only [e₂, hb, ne_eq, ht, not_true_eq_false, if_false]
      have hc := h₁.counts
      exact ⟨h₁.border, h₁.client, h₁.callBacks,
        ⟨hc.settled, hc.action, hc.touchAction.trans (by rw [h₁.border, ht]), hc.reserved⟩⟩
    case neg =>
      simp only [e₂, hb, ne_eq, ht, not_false_eq_true, if_true]
      have hs : e₁.SameEdge (e₁.reserve.setTouchAction (s.actionForTouchEdge p.border)) :=
        e₁.sameEdge_reserve.trans (Edge.sameEdge_setTouchAction _)
      refine ⟨hs.border.trans h₁.border, hs.client.trans h₁.client, ?_,
        h₁.counts.firstTouchAction rfl ht (by rw [h₁.border])⟩
      rw [Edge.callBacks_setTouchAction, Edge.callBacks_reserve, h₁.callBacks]
  let e₃ := if s.desktopSwitching then e₂.forDesktopSwitching s.virtualDesktopLayout Edge.reserve else e₂
  have h₃ : e₃.Fresh p.border s.actions s.actionForTouchEdge
      (if s.desktopSwitching && s.virtualDesktopLayout.switchesAt p.border then 1 else 0) := by
    simp only [e₃, Edge.forDesktopSwitching_eq e₂.sameEdge_reserve, h₂.border]
    cases hd : s.desktopSwitching
    case false => exact h₂
    case true =>
      cases hw : s.virtualDesktopLayout.switchesAt p.border
      case false => exact h₂
      case true =>
        have hs := e₂.sameEdge_reserve
        exact ⟨hs.border.trans h₂.border, hs.client.trans h₂.client, e₂.callBacks_reserve.trans h₂.callBacks,
          h₂.counts.reserve⟩
  have he : s.createEdge covers p true = e₃.checkBlocking s.remainActiveOnFullscreen covers := rfl
  have hs : e₃.SameEdge (e₃.checkBlocking s.remainActiveOnFullscreen covers) := e₃.sameEdge_checkBlocking
  rw [he]
  exact ⟨hs.border.trans h₃.border, hs.client.trans h₃.client, e₃.callBacks_checkBlocking.trans h₃.callBacks,
    h₃.counts.checkBlocking⟩

theorem switchesAt_cases (s : ScreenEdges Object Slot Action Window) (border : ElectricBorder) :
    (if s.desktopSwitching && s.virtualDesktopLayout.switchesAt border then 1 else 0) = s.switching border ∧
      (border.isCorner → s.desktopSwitching → s.virtualDesktopLayout.isEmpty = false) ∨
    (if s.desktopSwitching && s.virtualDesktopLayout.switchesAt border then 1 else 0) = s.switching border + 1 ∧
      ¬(border.isCorner → s.desktopSwitching → s.virtualDesktopLayout.isEmpty = false) := by
  unfold switching Orientations.appliesTo
  cases s.desktopSwitching
  case false => simp
  case true =>
    cases ho : s.virtualDesktopLayout.isEmpty
    case false => simp
    case true => cases hc : border.isCorner <;> simp [Orientations.switchesAt_of_isEmpty ho, hc]

-- The reasons that an edge has now.
def reasons (s : ScreenEdges Object Slot Action Window) (e : Edge Object Slot Action Window) : ℤ :=
  e.ownReasons + s.switching e.border

-- Every edge that is there for everybody is reserved as often as there are reasons, and else is not active.
def Counted (s : ScreenEdges Object Slot Action Window) : Prop :=
  ∀ e ∈ s.edges, e.client = none →
    e.reserved = s.reasons e ∧ 0 ≤ e.reserved ∧ (e.reserved = 0 → e.hasGesture = false ∧ e.approaching = false)

theorem Edge.Settled.deactivated (h : e.Settled) (h0 : e.reserved = 0) : e.hasGesture = false ∧ e.approaching = false :=
  ⟨by rw [h.gesture, isReserved, h0]; rfl, h.idle h0⟩

theorem Exact.counted (h : s.Exact) : s.Counted := fun e he hc =>
  have hk := h e he hc
  ⟨hk.reserved, hk.settled.nonneg, hk.settled.deactivated⟩

variable [DecidableEq Object] [DecidableEq Action]

namespace Edge

def insertAll (callBacks : AList fun _ : Object => Slot) (l : List (Sigma fun _ : Object => Slot)) :
    AList fun _ : Object => Slot :=
  l.foldl (fun callBacks callback => callBacks.insert callback.1 callback.2) callBacks

-- The second edge is the first one with the reservations `l` on top, of which one of an object that has a
-- reservation already leaves the edge reserved once too often.
structure Copies (e e' : Edge Object Slot Action Window) (l : List (Sigma fun _ : Object => Slot)) : Prop where
  same      : e.SameEdge e'
  callBacks : e'.callBacks = insertAll e.callBacks l
  counts    : ∀ {actions touchActions k}, e.Counts actions touchActions k →
    e'.Counts actions touchActions (k + e.callBacks.entries.length + l.length - e'.callBacks.entries.length)

namespace Copies

omit [DecidableEq Action] in
theorem refl (e : Edge Object Slot Action Window) : e.Copies e [] := by
  refine ⟨e.sameEdge_refl, rfl, fun {_ _ k} h => ?_⟩
  rwa [show k + e.callBacks.entries.length + ([] : List (Sigma fun _ : Object => Slot)).length -
    e.callBacks.entries.length = k by simp]

omit [DecidableEq Action] in
theorem trans {l l' : List (Sigma fun _ : Object => Slot)} (h : e.Copies e' l) (h' : e'.Copies e'' l') :
    e.Copies e'' (l ++ l') := by
  refine ⟨h.same.trans h'.same, ?_, fun {_ _ k} hk => ?_⟩
  · rw [h'.callBacks, h.callBacks, insertAll, insertAll, insertAll, List.foldl_append]
  · have := h'.counts (h.counts hk)
    rw [List.length_append]
    convert this using 1
    omega

omit [DecidableEq Action] in
theorem foldl_reserveObject (l : List (Sigma fun _ : Object => Slot)) (e : Edge Object Slot Action Window) :
    e.Copies (l.foldl (fun e callback => e.reserveObject callback.1 callback.2) e) l := by
  induction l generalizing e
  case nil => exact refl e
  case cons callback l ih =>
    have h : e.Copies (e.reserveObject callback.1 callback.2) [callback] := by
      have hc := e.callBacks_reserveObject callback.1 callback.2
      refine ⟨e.sameEdge_reserveObject _ _, hc, fun {_ _ k} hk => ?_⟩
      have := hk.reserveObject callback.1 callback.2
      rw [hc, List.length_singleton]
      convert this using 1
      omega
    exact h.trans (ih _)

theorem foldl_reserveTouchCallBack (actions : List Action) (e : Edge Object Slot Action Window) :
    e.Copies (actions.foldl (fun e action => e.reserveTouchCallBack action) e) [] := by
  induction actions generalizing e
  case nil => exact refl e
  case cons action actions ih =>
    have h : e.Copies (e.reserveTouchCallBack action) [] := by
      have hc := e.callBacks_reserveTouchCallBack action
      refine ⟨e.sameEdge_reserveTouchCallBack _, hc, fun {_ _ k} hk => ?_⟩
      rw [hc]
      convert hk.reserveTouchCallBack using 1
      simp
    exact h.trans (ih _)

end Copies

-- What the edges of a border have to hand over.
def handedOver (oldEdges : List (Edge Object Slot Action Window)) (border : ElectricBorder) :
    List (Sigma fun _ : Object => Slot) :=
  (oldEdges.filter (·.border = border)).flatMap (·.callBacks.entries)

theorem copies_copyReservations (e oldEdge : Edge Object Slot Action Window) :
    e.Copies (e.copyReservations oldEdge) (handedOver [oldEdge] e.border) := by
  unfold copyReservations handedOver
  by_cases h : oldEdge.border = e.border
  case pos =>
    simp only [ne_eq, h, not_true_eq_false, if_false, List.filter_singleton, decide_true, cond_true,
      List.flatMap_singleton]
    have := (Copies.foldl_reserveObject oldEdge.callBacks.entries e).trans
      (Copies.foldl_reserveTouchCallBack oldEdge.touchCallBacks _)
    rwa [List.append_nil] at this
  case neg =>
    simp only [ne_eq, h, not_false_eq_true, if_true, List.filter_singleton, decide_false, cond_false,
      List.flatMap_nil]
    exact Copies.refl e

theorem copies_foldl_copyReservations (oldEdges : List (Edge Object Slot Action Window))
    (e : Edge Object Slot Action Window) :
    e.Copies (oldEdges.foldl copyReservations e) (handedOver oldEdges e.border) := by
  induction oldEdges generalizing e
  case nil => exact Copies.refl e
  case cons oldEdge oldEdges ih =>
    have h := (copies_copyReservations e oldEdge).trans (ih _)
    rw [(copies_copyReservations e oldEdge).same.border] at h
    have : handedOver (oldEdge :: oldEdges) e.border =
        handedOver [oldEdge] e.border ++ handedOver oldEdges e.border := by
      rw [handedOver, handedOver, handedOver, ← List.flatMap_append, ← List.filter_append, List.singleton_append]
    rwa [this]

end Edge

-- The reservations that the edges of a border have for one and the same object.
def SharesNoObject (s : ScreenEdges Object Slot Action Window) (border : ElectricBorder) : Prop :=
  (s.edges.filter fun e => e.client.isNone && e.border = border).Pairwise fun e e' =>
    ∀ object ∈ e.callBacks, object ∉ e'.callBacks

-- Where an edge is due, no two old edges hold the same object, and a corner is due only if there are desktops to
-- switch to.
def RecreatesExactly (s : ScreenEdges Object Slot Action Window) (workspace : Workspace Window) : Prop :=
  ∀ p ∈ s.places workspace.geometry workspace.outputs,
    (p.border.isCorner → s.desktopSwitching → s.virtualDesktopLayout.isEmpty = false) ∧ s.SharesNoObject p.border

omit [DecidableEq Object] [DecidableEq Action] in
theorem nodup_handedOver_iff {border : ElectricBorder} :
    ((Edge.handedOver (s.edges.filter (·.client.isNone)) border).map Sigma.fst).Nodup ↔ s.SharesNoObject border := by
  rw [Edge.handedOver, List.filter_filter, List.map_flatMap, List.nodup_flatMap]
  rw [and_iff_right, SharesNoObject]
  · simp only [Bool.and_comm]
    exact Iff.rfl
  · exact fun e _ => e.callBacks.keys_nodup

-- What is left of an edge at `p` when the reservations of the old edges are copied.
def recreated (s : ScreenEdges Object Slot Action Window) (covers : Point → Bool) (p : Place) :
    Edge Object Slot Action Window :=
  (s.edges.filter (·.client.isNone)).foldl Edge.copyReservations (s.createEdge covers p true)

-- How often a recreated edge is reserved for other reasons than its own.
def surplus (s : ScreenEdges Object Slot Action Window) (border : ElectricBorder) : ℤ :=
  let l := Edge.handedOver (s.edges.filter (·.client.isNone)) border
  (if s.desktopSwitching && s.virtualDesktopLayout.switchesAt border then 1 else 0) + l.length -
    (Edge.insertAll ∅ l).entries.length

theorem recreated_spec (s : ScreenEdges Object Slot Action Window) (covers : Point → Bool) (p : Place) :
    (s.recreated covers p).border = p.border ∧ (s.recreated covers p).client = none ∧
    (s.recreated covers p).Counts s.actions s.actionForTouchEdge (s.surplus p.border) := by
  have h := s.fresh_createEdge covers p
  have hc := Edge.copies_foldl_copyReservations (s.edges.filter (·.client.isNone)) (s.createEdge covers p true)
  refine ⟨hc.same.border.trans h.border, hc.same.client.trans h.client, ?_⟩
  have := hc.counts h.counts
  rw [hc.callBacks, h.callBacks, h.border] at this
  rw [recreated]
  convert this using 1
  simp [surplus]

omit [DecidableEq Action] in
-- Neither of the two ways to reserve an edge once too often makes up for the other.
theorem surplus_eq_switching_iff {border : ElectricBorder} : s.surplus border = s.switching border ↔
    (border.isCorner → s.desktopSwitching → s.virtualDesktopLayout.isEmpty = false) ∧ s.SharesNoObject border := by
  let l := Edge.handedOver (s.edges.filter (·.client.isNone)) border
  have hle : (Edge.insertAll ∅ l).entries.length ≤ l.length := by
    have := Hash.length_foldl_insert_le (m := (∅ : AList fun _ : Object => Slot)) (l := l) (f := Sigma.fst)
      (g := Sigma.snd)
    simpa [Edge.insertAll] using this
  have hn : (Edge.insertAll ∅ l).entries.length = l.length ↔ s.SharesNoObject border := by
    have := Hash.length_foldl_insert_eq_iff (m := (∅ : AList fun _ : Object => Slot)) (l := l) (f := Sigma.fst)
      (g := Sigma.snd)
    rw [← nodup_handedOver_iff]
    simpa [Edge.insertAll, l] using this
  have hs : s.surplus border = (if s.desktopSwitching && s.virtualDesktopLayout.switchesAt border then 1 else 0) +
    l.length - (Edge.insertAll ∅ l).entries.length := rfl
  rw [← hn, hs]
  cases s.switchesAt_cases border with
  | inl h =>
    rw [h.1, and_iff_right h.2]
    omega
  | inr h =>
    rw [h.1]
    exact iff_of_false (by omega) fun hc => h.2 hc.1

section

variable [DecidableEq Window] {workspace : Workspace Window}

theorem sameButClients_recreateEdges (s : ScreenEdges Object Slot Action Window) (workspace : Workspace Window) :
    SameButClients
    { s with edges := (s.places workspace.geometry workspace.outputs).map (s.recreated workspace.covers) }
    (s.recreateEdges workspace) := by
  unfold ScreenEdges.recreateEdges
  simp only [List.map_map]
  refine .foldl (fun s oldEdge => ?_) ..
  split
  case h_1 => exact .refl s
  case h_2 => exact .reserveClient

end

def StepsExactly (s : ScreenEdges Object Slot Action Window) : Event Object Slot Action Window → Prop
  | .recreateEdges workspace => s.RecreatesExactly workspace
  | .setAllScreenCorners workspace enable =>
    enable = s.allScreenCorners ∨ RecreatesExactly { s with allScreenCorners := enable } workspace
  | .setTouchTarget workspace newTouchTarget =>
    newTouchTarget = s.touchTarget ∨ RecreatesExactly { s with touchTarget := newTouchTarget } workspace
  | _ => True

section

variable [DecidableEq Window] {workspace : Workspace Window}

theorem recreateEdges_spec (s : ScreenEdges Object Slot Action Window) (workspace : Workspace Window) :
    ((s.recreateEdges workspace).Counted ↔ s.RecreatesExactly workspace) ∧
      (s.RecreatesExactly workspace → (s.recreateEdges workspace).Exact) := by
  have hs := s.sameButClients_recreateEdges workspace
  have hmem {p} (hp : p ∈ s.places workspace.geometry workspace.outputs) :
      s.recreated workspace.covers p ∈ (s.recreateEdges workspace).edges :=
    (hs.mem _ (s.recreated_spec _ p).2.1).mpr (List.mem_map_of_mem hp)
  have hreasons (e : Edge Object Slot Action Window) :
      (s.recreateEdges workspace).reasons e = e.ownReasons + s.switching e.border := by
    rw [hs.eq]
    rfl
  have hexact : s.RecreatesExactly workspace → (s.recreateEdges workspace).Exact := by
    intro h
    refine hs.exact fun e he _ => ?_
    have ⟨p, hp, heq⟩ := List.mem_map.mp he
    subst heq
    have ⟨hb, _, hk⟩ := s.recreated_spec workspace.covers p
    rw [surplus_eq_switching_iff.mpr (h p hp)] at hk
    rw [hb]
    exact hk
  refine ⟨⟨fun h p hp => ?_, fun h => (hexact h).counted⟩, hexact⟩
  have ⟨hb, hc, hk⟩ := s.recreated_spec workspace.covers p
  have := (h _ (hmem hp) hc).1
  rw [hreasons, hb, hk.reserved_eq_iff] at this
  exact surplus_eq_switching_iff.mp this

theorem step_spec {event : Event Object Slot Action Window} {s' : ScreenEdges Object Slot Action Window} (h : s.Exact)
    (hs : s.step event = some s') : (s'.Counted ↔ s.StepsExactly event) ∧ (s.StepsExactly event → s'.Exact) := by
  have hkeeps (h : s'.Exact) : (s'.Counted ↔ True) ∧ (True → s'.Exact) := ⟨iff_of_true h.counted trivial, fun _ => h⟩
  cases event with
  | recreateEdges workspace => cases hs; exact s.recreateEdges_spec workspace
  | setAllScreenCorners workspace enable =>
    cases hs
    unfold ScreenEdges.setAllScreenCorners
    split
    case isTrue heq => exact ⟨iff_of_true h.counted (.inl heq), fun _ => h⟩
    case isFalse hne =>
      simp only [StepsExactly, or_iff_right hne]
      exact recreateEdges_spec _ workspace
  | setTouchTarget workspace newTouchTarget =>
    cases hs
    unfold ScreenEdges.setTouchTarget
    split
    case isTrue heq => exact ⟨iff_of_true h.counted (.inl heq), fun _ => h⟩
    case isFalse hne =>
      simp only [StepsExactly, or_iff_right hne]
      exact recreateEdges_spec _ workspace
  | reserve border object slot =>
    simp only [step, Option.ite_none_left_eq_some] at hs
    cases hs.2
    exact hkeeps (h.reserve hs.1)
  | setActionForBorder => cases hs; exact hkeeps h.setActionForBorder
  | setActionForTouchBorder => cases hs; exact hkeeps h.setActionForTouchBorder
  | updateLayout => cases hs; exact hkeeps h.updateLayout
  | setDesktopSwitching => cases hs; exact hkeeps h.setDesktopSwitching
  | setRemainActiveOnFullscreen => cases hs; exact hkeeps h
  | checkBlocking => cases hs; exact hkeeps h.checkBlocking
  | unreserve => cases hs; exact hkeeps h.unreserve
  | objectDestroyed => cases hs; exact hkeeps h.objectDestroyed
  | reserveTouch => cases hs; exact hkeeps h.reserveTouch
  | unreserveTouch => cases hs; exact hkeeps h.unreserveTouch
  | actionDestroyed => cases hs; exact hkeeps h.actionDestroyed
  | reserveClient => cases hs; exact hkeeps (SameButClients.reserveClient.exact h)
  | windowClosed => cases hs; exact hkeeps (SameButClients.deleteEdgeForClient.exact h)
  | clientTriggered => cases hs; exact hkeeps h.clientTriggered
  | startApproaching i =>
    cases hs
    refine hkeeps (h.modify (fun e => ?_) fun e _ _ _ hk => ?_)
    · split <;> exact ⟨rfl, rfl⟩
    · split
      case isTrue hr => exact hk.startApproaching hr
      case isFalse => exact hk
  | stopApproaching i =>
    cases hs
    exact hkeeps (h.modify (fun _ => ⟨rfl, rfl⟩) fun _ _ _ _ hk => hk.stopApproaching)

-- The screen edges are made without edges.
theorem always_counted_iff (events : List (Event Object Slot Action Window)) :
    Machine.Always step Counted ({} : ScreenEdges Object Slot Action Window) events ↔
      Machine.EachStep step StepsExactly {} events := by
  have start : Exact ({} : ScreenEdges Object Slot Action Window) := fun _ he => absurd he List.not_mem_nil
  exact Machine.Always.iff_eachStep start Exact.counted step_spec

end

instance (s : ScreenEdges Object Slot Action Window) : Decidable s.Counted :=
  inferInstanceAs (Decidable (∀ e ∈ s.edges, _))

-- Two outputs side by side.
def sideBySide : Workspace ℕ where
  geometry := ⟨0, 0, 2000, 1000⟩
  outputs  := [⟨0, 0, 1000, 1000⟩, ⟨1000, 0, 2000, 1000⟩]
  windows  := fun _ => ⟨false, ⟨0, 0, 100, 100⟩, ⟨0, 0, 1000, 1000⟩⟩
  covers   := fun _ => false

-- A callback at the top of two outputs is counted twice when the edges are recreated, and a corner is reserved for
-- the switching of desktops when there is only one desktop.
theorem not_always_counted :
    (¬Machine.Always step Counted ({} : ScreenEdges ℕ ℕ ℕ ℕ)
      [.recreateEdges sideBySide, .reserve .top 1 0, .recreateEdges sideBySide]) ∧
    ¬Machine.Always step Counted ({} : ScreenEdges ℕ ℕ ℕ ℕ)
      [.setDesktopSwitching true, .recreateEdges sideBySide] := by
  constructor
  · intro h
    have h := (((h.2 _ rfl).2 _ rfl).2 _ rfl).start
    exact absurd h (by decide +kernel)
  · intro h
    have h := ((h.2 _ rfl).2 _ rfl).start
    exact absurd h (by decide +kernel)

end KWin.ScreenEdges
