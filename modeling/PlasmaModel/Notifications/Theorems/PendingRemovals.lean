import PlasmaModel.Lib.Rows
import PlasmaModel.Lib.Runs
import PlasmaModel.Notifications.AbstractNotificationsModel

namespace NotificationManager.AbstractNotificationsModel

variable {s : AbstractNotificationsModel} {queue : List (Nat × Nat)} {range : Nat × Nat} {rows : List Nat}
variable {id : UInt32} {row : Nat} {n : Notification}

def rowsOf (range : Nat × Nat) : List Nat :=
  List.range' range.1 (range.2 + 1 - range.1)

theorem rowsOf_single (row : Nat) : rowsOf (row, row) = [row] := by
  rw [rowsOf, Nat.add_sub_cancel_left, List.range'_one]

theorem rowsOf_succ (h : range.1 ≤ range.2) : rowsOf (range.1, range.2 + 1) = rowsOf range ++ [range.2 + 1] := by
  have hl : range.2 + 1 + 1 - range.1 = (range.2 + 1 - range.1) + 1 := by omega
  have hlast : range.1 + 1 * (range.2 + 1 - range.1) = range.2 + 1 := by omega
  rw [rowsOf, rowsOf, hl, List.range'_concat, hlast]

-- The ranges hold the rows in their order. Those in the queue are before the one that grows.
theorem flatMap_clearQueue (hr : range.1 ≤ range.2) (hq : ∀ r ∈ queue, r.2 < range.1)
    (hs : (range.2 :: rows).Pairwise (· < ·)) :
    (clearQueue queue range rows).flatMap rowsOf = queue.flatMap rowsOf ++ rowsOf range ++ rows := by
  induction rows generalizing queue range
  case nil =>
    have hlast : queue.getLast? ≠ some range := by
      intro h
      have := hq range (List.mem_of_getLast? h)
      omega
    rw [clearQueue, if_pos (.inr hlast), List.flatMap_append, List.flatMap_singleton, List.append_nil]
  case cons row rows ih =>
    have ⟨hlt, hs⟩ := List.pairwise_cons.mp hs
    have hrow := hlt row List.mem_cons_self
    rw [clearQueue]
    split
    case isTrue hgap =>
      have hbefore : ∀ r ∈ queue ++ [range], r.2 < row := by
        intro r hm
        cases List.mem_append.mp hm with
        | inl hm => exact Nat.lt_trans (Nat.lt_of_lt_of_le (hq r hm) hr) hrow
        | inr hm => exact List.mem_singleton.mp hm ▸ hrow
      rw [@ih _ (row, row) (Nat.le_refl row) hbefore hs, rowsOf_single, List.flatMap_append, List.flatMap_singleton,
        List.append_assoc, List.singleton_append]
    case isFalse hgap =>
      have hnext : row = range.2 + 1 := by omega
      subst hnext
      rw [@ih _ (range.1, range.2 + 1) (Nat.le_succ_of_le hr) hq hs, rowsOf_succ hr]
      simp only [List.append_assoc, List.singleton_append]

theorem removeRows_notifications (hn : rows.Nodup) {p : Notification → Bool}
    (hp : ∀ row, row ∈ rows ↔ ∃ n, s.notifications[row]? = some n ∧ p n = true) :
    (s.removeRows rows).notifications = s.notifications.filter (!p ·) := by
  have hperm := List.perm_insertionSort (· ≤ ·) rows
  have hsorted : (rows.insertionSort (· ≤ ·)).Pairwise (· < ·) := by
    have hle := List.pairwise_insertionSort (· ≤ ·) rows
    exact (hle.and (hperm.nodup_iff.mpr hn)).imp fun ⟨hle, hne⟩ => Nat.lt_of_le_of_ne hle hne
  rw [← List.eraseRows_eq_filter hsorted fun row => hperm.mem_iff.trans (hp row), removeRows]
  split
  case h_1 he => rw [he, List.eraseRows_nil]
  case h_2 row rows he =>
    rw [he] at hsorted
    have hfirst : clearQueue [] (row, row) (row :: rows) = clearQueue [] (row, row) rows := by
      rw [clearQueue, if_neg (Nat.not_lt.mpr (Nat.le_succ row))]
    have hflat := @flatMap_clearQueue [] (row, row) rows (Nat.le_refl row) (fun r hr => (List.not_mem_nil hr).elim) hsorted
    rw [rowsOf_single, List.flatMap_nil, List.nil_append, List.singleton_append, ← hfirst] at hflat
    rw [he]
    calc (clearQueue [] (row, row) (row :: rows)).foldr removeRange s.notifications
      _ = List.eraseRows ((clearQueue [] (row, row) (row :: rows)).flatMap rowsOf) s.notifications :=
        List.foldr_flatMap.symm
      _ = List.eraseRows (row :: rows) s.notifications := by rw [hflat]

theorem removeRows_pendingRemovals (rows : List Nat) (s : AbstractNotificationsModel) :
    (s.removeRows rows).pendingRemovals = if rows = [] then s.pendingRemovals else [] := by
  have hperm := List.perm_insertionSort (· ≤ ·) rows
  rw [removeRows]
  split
  case h_1 he => rw [if_pos (List.nil_perm.mp (he ▸ hperm))]
  case h_2 he =>
    rw [if_neg]
    rintro rfl
    cases he

theorem exists_of_rowOfNotification (h : s.rowOfNotification id = some row) :
    ∃ n, s.notifications[row]? = some n ∧ n.id = id := by
  have ⟨hlt, he, _⟩ := List.findIdx?_eq_some_iff_getElem.mp h
  exact ⟨_, List.getElem?_eq_getElem hlt, of_decide_eq_true he⟩

theorem rowOfNotification_isSome : (s.rowOfNotification id).isSome = true ↔ id ∈ s.ids := by
  rw [rowOfNotification, List.findIdx?_isSome, List.any_eq_true, ids, List.mem_map]
  simp only [decide_eq_true_eq]

theorem getElem?_ids (h : s.notifications[row]? = some n) : s.ids[row]? = some n.id := by
  rw [ids, List.getElem?_map, h, Option.map_some]

theorem rowOfNotification_eq (hn : s.ids.Nodup) (h : s.notifications[row]? = some n) :
    s.rowOfNotification n.id = some row := by
  have hm : n.id ∈ s.ids := List.mem_map_of_mem (List.mem_of_getElem? h)
  have ⟨row', hr⟩ := Option.isSome_iff_exists.mp (rowOfNotification_isSome.mpr hm)
  have ⟨n', hn', he⟩ := exists_of_rowOfNotification hr
  have hids := (getElem?_ids hn').trans (he ▸ (getElem?_ids h).symm)
  have ⟨hlt, _⟩ := List.getElem?_eq_some_iff.mp (getElem?_ids hn')
  rw [hr, (List.getElem?_inj hlt hn).mp hids]

theorem timeout_notifications (hn : s.ids.Nodup) (hp : s.pendingRemovals.Nodup) :
    s.timeout.notifications = s.notifications.filter (·.id ∉ s.pendingRemovals) := by
  have hrows : (s.pendingRemovals.filterMap s.rowOfNotification).Nodup := by
    refine hp.filterMap fun id id' row hi hi' => ?_
    have ⟨n, hn, he⟩ := exists_of_rowOfNotification hi
    have ⟨n', hn', he'⟩ := exists_of_rowOfNotification hi'
    cases hn.symm.trans hn'
    exact he.symm.trans he'
  have hmem (row : Nat) : row ∈ s.pendingRemovals.filterMap s.rowOfNotification ↔
      ∃ n, s.notifications[row]? = some n ∧ decide (n.id ∈ s.pendingRemovals) = true := by
    rw [List.mem_filterMap]
    constructor
    case mp =>
      intro ⟨id, hm, hr⟩
      have ⟨n, hn, he⟩ := exists_of_rowOfNotification hr
      exact ⟨n, hn, decide_eq_true (he ▸ hm)⟩
    case mpr => exact fun ⟨n, hr, hm⟩ => ⟨n.id, of_decide_eq_true hm, rowOfNotification_eq hn hr⟩
  refine (@removeRows_notifications { s with pendingRemovalTimer := false } _ hrows _ hmem).trans ?_
  exact List.filter_congr fun n _ => decide_not.symm

theorem timeout_pendingRemovals : s.timeout.pendingRemovals =
    if ∃ id ∈ s.pendingRemovals, id ∈ s.ids then [] else s.pendingRemovals := by
  have hrows : s.pendingRemovals.filterMap s.rowOfNotification = [] ↔ ¬∃ id ∈ s.pendingRemovals, id ∈ s.ids := by
    rw [List.filterMap_eq_nil_iff]
    simp only [← rowOfNotification_isSome, Option.not_isSome_iff_eq_none.symm, not_exists, not_and]
  rw [timeout, removeRows_pendingRemovals]
  by_cases h : ∃ id ∈ s.pendingRemovals, id ∈ s.ids
  case pos => rw [if_pos h, if_neg fun hn => hrows.mp hn h]
  case neg => rw [if_neg h, if_pos (hrows.mpr h)]

end NotificationManager.AbstractNotificationsModel

namespace NotificationManager

namespace AbstractNotificationsModel

variable {s : AbstractNotificationsModel} {id : UInt32} {n : Notification} {inhibited : Bool} {reason : CloseReason}

theorem kept_sublist : s.kept.Sublist s.notifications := by
  rw [kept]
  split
  case isTrue => exact List.drop_sublist _ _
  case isFalse => exact .refl _

theorem ids_modify {row : Nat} {update : Notification → Notification}
    (h : ∀ n, s.notifications[row]? = some n → (update n).id = n.id) :
    (s.notifications.modify row update).map Notification.id = s.ids := by
  refine List.ext_getElem? fun i => ?_
  rw [List.getElem?_map, List.getElem?_modify, ids, List.getElem?_map]
  cases hn : s.notifications[i]? with
  | none => rfl
  | some n =>
    rw [Option.map_eq_map, Option.map_some, Option.map_some, Option.map_some]
    split
    case isTrue he => rw [h n (he ▸ hn)]
    case isFalse => rfl

theorem ids_onNotificationAdded : (s.onNotificationAdded n).ids = s.kept.map Notification.id ++ [n.id] := by
  rw [onNotificationAdded, ids, List.map_append, List.map_singleton]

-- A notification that is replaced stands where it was, and any other is added.
theorem ids_onNotificationReplaced (hn : n.id = id) : (s.onNotificationReplaced id n inhibited).ids =
    if id ∈ s.ids then s.ids else s.kept.map Notification.id ++ [id] := by
  rw [onNotificationReplaced]
  split
  case h_1 hr =>
    rw [ids_onNotificationAdded, hn, if_neg]
    rw [← rowOfNotification_isSome, hr]
    exact Bool.false_ne_true
  case h_2 row hr =>
    rw [if_pos (rowOfNotification_isSome.mp (hr ▸ rfl))]
    refine ids_modify fun old ho => ?_
    have ⟨old', ho', he⟩ := exists_of_rowOfNotification hr
    cases ho.symm.trans ho'
    exact hn.trans he.symm

theorem pendingRemovals_onNotificationReplaced :
    (s.onNotificationReplaced id n inhibited).pendingRemovals = s.pendingRemovals := by
  rw [onNotificationReplaced]
  split <;> rfl

theorem ids_onNotificationRemoved : (s.onNotificationRemoved id reason).ids = s.ids := by
  rw [onNotificationRemoved]
  split
  case h_1 => rfl
  case h_2 =>
    split
    case isTrue => exact ids_modify fun _ _ => rfl
    case isFalse => rfl

theorem mem_onNotificationRemoved {id' : UInt32} : id' ∈ (s.onNotificationRemoved id reason).pendingRemovals ↔
    id' ∈ s.pendingRemovals ∨ id' = id ∧ id ∈ s.ids ∧ reason ≠ .expired := by
  rw [onNotificationRemoved, ← rowOfNotification_isSome]
  split
  case h_1 hr => simp [hr]
  case h_2 row hr =>
    split
    case isTrue he => simp [he]
    case isFalse he =>
      dsimp only
      split
      case isTrue hm => simpa [hr, he] using fun heq : id' = id => heq ▸ hm
      case isFalse => simp [hr, he]

theorem nodup_onNotificationRemoved (h : s.pendingRemovals.Nodup) :
    (s.onNotificationRemoved id reason).pendingRemovals.Nodup := by
  rw [onNotificationRemoved]
  split
  case h_1 => exact h
  case h_2 =>
    split
    case isTrue => exact h
    case isFalse =>
      dsimp only
      split
      case isTrue => exact h
      case isFalse hm =>
        have hd : s.pendingRemovals.Disjoint [id] := List.disjoint_singleton.mpr hm
        exact List.nodup_append'.mpr ⟨h, List.nodup_singleton id, hd⟩

end AbstractNotificationsModel

namespace Server

variable {s : Server} {replacesId : UInt32} {contents : Notification} {now : Int} {inhibited : Bool}

def notificationId (s : Server) (replacesId : UInt32) : UInt32 :=
  if 0 < replacesId then replacesId else s.d.nextNotificationId.1

theorem notificationId_ne_zero : s.notificationId replacesId ≠ 0 := by
  rw [notificationId]
  split
  case isTrue h => exact fun he => UInt32.lt_irrefl 0 (he ▸ h)
  case isFalse =>
    rw [ServerPrivate.nextNotificationId]
    dsimp only
    split
    case isTrue => decide
    case isFalse h =>
      intro he
      rw [he] at h
      exact h (by decide)

-- A notification is refused and changes nothing, or it is added or replaces the one of its id.
theorem notify_cases (replacesId : UInt32) (contents : Notification) (now : Int) (inhibited : Bool) (s : Server) :
    ServerPrivate.isExcess s.d.lastNotification contents = true ∧
        (s.notify replacesId contents now inhibited).2 = 0 ∧
          (s.notify replacesId contents now inhibited).1.model = s.model ∨
      ServerPrivate.isExcess s.d.lastNotification contents = false ∧
        (s.notify replacesId contents now inhibited).2 = s.notificationId replacesId ∧
          ∃ n : Notification, n.id = s.notificationId replacesId ∧
            (s.notify replacesId contents now inhibited).1.model =
              if 0 < replacesId then s.model.onNotificationReplaced replacesId n inhibited
              else s.model.onNotificationAdded n := by
  have hexcess (id : UInt32) : ServerPrivate.isExcess s.d.lastNotification { contents with id } =
      ServerPrivate.isExcess s.d.lastNotification contents := rfl
  rw [notify, notificationId]
  by_cases hr : 0 < replacesId
  case pos =>
    simp only [if_pos hr, hexcess]
    cases ServerPrivate.isExcess s.d.lastNotification contents with
    | true => exact .inl ⟨rfl, rfl, rfl⟩
    | false => exact .inr ⟨rfl, rfl, _, rfl, rfl⟩
  case neg =>
    simp only [if_neg hr, hexcess]
    cases ServerPrivate.isExcess s.d.lastNotification contents with
    | true => exact .inl ⟨rfl, rfl, rfl⟩
    | false => exact .inr ⟨rfl, rfl, _, rfl, rfl⟩

end Server

inductive Event
  | notify (replacesId : UInt32) (contents : Notification) (now : Int) (inhibited : Bool)
  | close (id : UInt32) (reason : CloseReason)
  | timeout

-- The ids that were closed, not because they had expired, and not shown since.
structure Session where
  server : Server := {}
  closed : List UInt32 := []

namespace Session

variable {s s' : Session} {event : Event}

def step (s : Session) : Event → Option Session
  | .notify replacesId contents now inhibited =>
    let (server, id) := s.server.notify replacesId contents now inhibited
    some { server, closed := if id = 0 then s.closed else s.closed.filter (· ≠ id) }
  | .close id reason =>
    some
      { server := s.server.closeNotification id reason
        closed := if reason = .expired then s.closed else id :: s.closed }
  | .timeout =>
    if s.server.model.pendingRemovalTimer then
      some { s with server := { s.server with model := s.server.model.timeout } }
    else
      none

def Correct (s : Session) (event : Event) : Prop :=
  ∀ s', s.step event = some s' → s'.server.model.ids.Nodup ∧ (event = .timeout →
    s'.server.model.notifications = s.server.model.notifications.filter (·.id ∉ s.closed) ∧
      s'.server.model.pendingRemovals = [])

-- The counter gives an id that no notification has which stays. When the timer fires some queued id is still there, and
-- no queued id has been shown again since it was closed.
def Tidy (s : Session) : Event → Prop
  | .notify replacesId contents _ _ =>
    replacesId = 0 → ServerPrivate.isExcess s.server.d.lastNotification contents = false →
      s.server.d.nextNotificationId.1 ∉ s.server.model.kept.map Notification.id
  | .close _ _ => True
  | .timeout =>
    (s.server.model.pendingRemovals ≠ [] → ∃ id ∈ s.server.model.pendingRemovals, id ∈ s.server.model.ids) ∧
      ∀ id ∈ s.server.model.ids, id ∈ s.server.model.pendingRemovals → id ∈ s.closed

structure Queued (s : Session) : Prop where
  nodup           : s.server.model.ids.Nodup
  pendingRemovals : s.server.model.pendingRemovals.Nodup
  closed          : ∀ id ∈ s.server.model.ids, id ∈ s.closed → id ∈ s.server.model.pendingRemovals

theorem correct_iff (hs : s.step event = some s') : s.Correct event ↔ s'.server.model.ids.Nodup ∧ (event = .timeout →
    s'.server.model.notifications = s.server.model.notifications.filter (·.id ∉ s.closed) ∧
      s'.server.model.pendingRemovals = []) :=
  ⟨fun h => h s' hs, fun h s'' hs' => by cases hs.symm.trans hs'; exact h⟩

theorem step_notify {replacesId : UInt32} {contents : Notification} {now : Int} {inhibited : Bool}
    (hs : s.step (.notify replacesId contents now inhibited) = some s') :
    ServerPrivate.isExcess s.server.d.lastNotification contents = true ∧ s'.server.model = s.server.model ∧
        s'.closed = s.closed ∨
      ServerPrivate.isExcess s.server.d.lastNotification contents = false ∧
        s'.closed = s.closed.filter (· ≠ s.server.notificationId replacesId) ∧
          ∃ n : Notification, n.id = s.server.notificationId replacesId ∧ s'.server.model =
            if 0 < replacesId then s.server.model.onNotificationReplaced replacesId n inhibited
            else s.server.model.onNotificationAdded n := by
  have hc := s.server.notify_cases replacesId contents now inhibited
  rw [step] at hs
  generalize s.server.notify replacesId contents now inhibited = r at hc hs
  cases hs
  cases hc with
  | inl hc =>
    have ⟨hx, hid, hm⟩ := hc
    exact .inl ⟨hx, hm, if_pos hid⟩
  | inr hc =>
    have ⟨hx, hid, hn⟩ := hc
    dsimp only
    rw [if_neg (hid ▸ Server.notificationId_ne_zero), hid]
    exact .inr ⟨hx, rfl, hn⟩

namespace Queued

variable {replacesId id : UInt32} {contents : Notification} {now : Int} {inhibited : Bool} {reason : CloseReason}

-- The ids that there are after a notification was shown.
theorem shown (h : s.Queued) (hn : s'.server.model.ids.Nodup)
    (hids : ∀ id' ∈ s'.server.model.ids, id' = id ∨ id' ∈ s.server.model.ids)
    (hp : s'.server.model.pendingRemovals = s.server.model.pendingRemovals) (hc : s'.closed = s.closed.filter (· ≠ id)) :
    s'.Queued where
  nodup := hn
  pendingRemovals := hp ▸ h.pendingRemovals
  closed id' hi hm := by
    rw [hc] at hm
    have ⟨hm, hne⟩ := List.mem_filter.mp hm
    rw [hp]
    exact h.closed id' ((hids id' hi).resolve_left (of_decide_eq_true hne)) hm

theorem notify (h : s.Queued) (hs : s.step (.notify replacesId contents now inhibited) = some s') :
    (s'.server.model.ids.Nodup ↔ s.Tidy (.notify replacesId contents now inhibited)) ∧
      (s'.server.model.ids.Nodup → s'.Queued) := by
  have hkept : (s.server.model.kept.map Notification.id).Sublist s.server.model.ids :=
    AbstractNotificationsModel.kept_sublist.map _
  cases step_notify hs with
  | inl hc =>
    have ⟨hx, hm, hclosed⟩ := hc
    have hq : s'.Queued := ⟨hm ▸ h.nodup, hm ▸ h.pendingRemovals, hm ▸ hclosed ▸ h.closed⟩
    refine ⟨iff_of_true hq.nodup fun _ hn => ?_, fun _ => hq⟩
    cases hx.symm.trans hn
  | inr hc =>
    have ⟨hx, hclosed, n, hn, hm⟩ := hc
    rw [Server.notificationId] at hclosed hn
    by_cases hr : 0 < replacesId
    case pos =>
      rw [if_pos hr] at hclosed hn hm
      have hids := @AbstractNotificationsModel.ids_onNotificationReplaced s.server.model replacesId n inhibited hn
      rw [← hm] at hids
      have hnodup : s'.server.model.ids.Nodup := by
        rw [hids]
        split
        case isTrue => exact h.nodup
        case isFalse hout =>
          have hd : (s.server.model.kept.map Notification.id).Disjoint [replacesId] :=
            List.disjoint_singleton.mpr fun hm => hout (hkept.subset hm)
          exact List.nodup_append'.mpr ⟨h.nodup.sublist hkept, List.nodup_singleton replacesId, hd⟩
      refine ⟨iff_of_true hnodup fun he => ?_, fun hn => h.shown hn (fun id' hi => ?_) ?_ hclosed⟩
      · cases he
        cases UInt32.lt_irrefl 0 hr
      · rw [hids] at hi
        split at hi
        case isTrue => exact .inr hi
        case isFalse =>
          cases List.mem_append.mp hi with
          | inl hi => exact .inr (hkept.subset hi)
          | inr hi => exact .inl (List.mem_singleton.mp hi)
      · rw [hm, AbstractNotificationsModel.pendingRemovals_onNotificationReplaced]
    case neg =>
      rw [if_neg hr] at hclosed hn hm
      have hids : s'.server.model.ids =
          s.server.model.kept.map Notification.id ++ [s.server.d.nextNotificationId.1] := by
        rw [hm, AbstractNotificationsModel.ids_onNotificationAdded, hn]
      have hr : replacesId = 0 := by
        refine UInt32.toNat_inj.mp (Nat.eq_zero_of_not_pos fun hp => hr ?_)
        exact UInt32.lt_iff_toNat_lt.mpr hp
      refine ⟨?_, fun hn => h.shown hn (fun id' hi => ?_) ?_ hclosed⟩
      · rw [Tidy, forall_prop_of_true hr, forall_prop_of_true hx, hids, List.nodup_append']
        rw [and_iff_right (h.nodup.sublist hkept), and_iff_right (List.nodup_singleton _), List.disjoint_singleton]
      · rw [hids] at hi
        cases List.mem_append.mp hi with
        | inl hi => exact .inr (hkept.subset hi)
        | inr hi => exact .inl (List.mem_singleton.mp hi)
      · rw [hm]
        rfl

theorem close (h : s.Queued) (hs : s.step (.close id reason) = some s') : s'.Queued := by
  cases Option.some_inj.mp hs
  refine ⟨?_, AbstractNotificationsModel.nodup_onNotificationRemoved h.pendingRemovals, fun id' hi hc => ?_⟩
  · exact AbstractNotificationsModel.ids_onNotificationRemoved.symm ▸ h.nodup
  · have hi : id' ∈ s.server.model.ids := AbstractNotificationsModel.ids_onNotificationRemoved ▸ hi
    refine AbstractNotificationsModel.mem_onNotificationRemoved.mpr ?_
    by_cases hr : reason = .expired
    case pos => exact .inl (h.closed id' hi (by simpa [hr] using hc))
    case neg =>
      cases List.mem_cons.mp (by simpa only [if_neg hr] using hc : id' ∈ id :: s.closed) with
      | inl he => exact .inr ⟨he, he ▸ hi, hr⟩
      | inr hc => exact .inl (h.closed id' hi hc)

theorem timeout (h : s.Queued) (hs : s.step .timeout = some s') :
    (s.Correct .timeout ↔ s.Tidy .timeout) ∧ s'.Queued := by
  rw [correct_iff hs]
  have ⟨_, hs⟩ := Option.ite_none_right_eq_some.mp hs
  cases hs
  have hn := AbstractNotificationsModel.timeout_notifications h.nodup h.pendingRemovals
  have hp : s.server.model.timeout.pendingRemovals = _ := AbstractNotificationsModel.timeout_pendingRemovals
  have hids : s.server.model.timeout.ids = s.server.model.ids.filter (· ∉ s.server.model.pendingRemovals) := by
    rw [AbstractNotificationsModel.ids, hn, AbstractNotificationsModel.ids, List.filter_map]
    rfl
  have hnodup : s.server.model.timeout.ids.Nodup := hids ▸ h.nodup.filter _
  constructor
  case left =>
    rw [and_iff_right hnodup, forall_prop_of_true rfl, hn, hp, Tidy, and_comm]
    refine and_congr ?_ ?_
    · split
      case isTrue he => exact iff_of_true rfl fun _ => he
      case isFalse hne => exact ⟨fun hp hn => (hn hp).elim, fun hp => not_not.mp fun hn => hne (hp hn)⟩
    · rw [List.filter_eq_filter_iff, AbstractNotificationsModel.ids, List.forall_mem_map]
      refine forall₂_congr fun n hm => ?_
      have hc := h.closed n.id (List.mem_map_of_mem hm)
      rw [decide_eq_true_eq, decide_eq_true_eq, not_iff_not]
      exact ⟨Iff.mp, fun hp => ⟨hp, hc⟩⟩
  case right =>
    refine ⟨hnodup, ?_, fun id hi hc => ?_⟩
    · change s.server.model.timeout.pendingRemovals.Nodup
      rw [hp]
      split
      case isTrue => exact List.nodup_nil
      case isFalse => exact h.pendingRemovals
    · have hi : id ∈ s.server.model.timeout.ids := hi
      rw [hids] at hi
      have ⟨hi, hout⟩ := List.mem_filter.mp hi
      exact (of_decide_eq_true hout (h.closed id hi hc)).elim

theorem step (h : s.Queued) (hs : s.step event = some s') :
    (s.Correct event ↔ s.Tidy event) ∧ (s.Tidy event → s'.Queued) := by
  cases event with
  | timeout => exact (h.timeout hs).imp_right fun h _ => h
  | notify replacesId contents now inhibited =>
    have ⟨hn, hq⟩ := h.notify hs
    have hc : s.Correct (.notify replacesId contents now inhibited) ↔ s'.server.model.ids.Nodup :=
      (correct_iff hs).trans (and_iff_left nofun)
    exact ⟨hc.trans hn, fun ht => hq (hn.mpr ht)⟩
  | close id reason =>
    have hq := h.close hs
    exact ⟨(correct_iff hs).trans (iff_of_true ⟨hq.nodup, nofun⟩ trivial), fun _ => hq⟩

theorem start : Queued {} where
  nodup := List.nodup_nil
  pendingRemovals := List.nodup_nil
  closed _ h := (List.not_mem_nil h).elim

end Queued

theorem eachStep_correct_iff (events : List Event) :
    Machine.EachStep step Correct {} events ↔ Machine.EachStep step Tidy {} events :=
  Machine.eachStep_iff .start Queued.step

def mail : Notification :=
  { applicationName := "mail", summary := "New mail", created := 5000 }

-- The second notification takes the place of the first one, which is closed but not removed yet.
theorem not_eachStep_correct : ¬Machine.EachStep step Correct {}
    [.notify 0 mail 5000 false, .close 1 .revoked, .notify 1 { mail with summary := "Two new mails" } 5010 false,
      .timeout] := by
  intro h
  have h := ((((h _ rfl).2 _ rfl).2 _ rfl).2 _ rfl).1 _ rfl
  have hn := (h.2 rfl).1
  revert hn
  decide

end Session

end NotificationManager
