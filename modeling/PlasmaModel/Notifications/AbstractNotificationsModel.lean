import Mathlib.Data.List.Sort

namespace NotificationManager

structure Notification where
  id                       : UInt32 := 0
  created                  : Int := 0
  updated                  : Option Int := none
  read                     : Bool := false
  summary                  : String := ""
  body                     : String := ""
  icon                     : String := ""
  applicationName          : String := ""
  desktopEntry             : String := ""
  eventId                  : String := ""
  actionNames              : List String := []
  actionLabels             : List String := []
  defaultActionId          : String := ""
  hasConfigureAction       : Bool := false
  replyActionId            : String := ""
  urls                     : List String := []
  expired                  : Bool := false
  dismissed                : Bool := false
  wasAddedDuringInhibition : Bool := false
deriving DecidableEq

namespace Notification

-- setActions(QStringList()).
def withoutActions (n : Notification) : Notification :=
  { n with defaultActionId := "", hasConfigureAction := false, replyActionId := "", actionNames := [], actionLabels := [] }

-- The notification that takes the place of another one.
def replacing (n : Notification) (inhibited : Bool) (old : Notification) : Notification :=
  { n with
    created := old.created
    expired := old.expired
    dismissed := old.dismissed
    read := old.read
    wasAddedDuringInhibition := inhibited }

end Notification

inductive CloseReason
  | expired
  | dismissedByUser
  | revoked
deriving DecidableEq

structure AbstractNotificationsModel where
  notifications       : List Notification := []
  pendingRemovals     : List UInt32 := []
  pendingRemovalTimer : Bool := false

namespace AbstractNotificationsModel

def notificationsLimit : Nat := 1000

def ids (s : AbstractNotificationsModel) : List UInt32 :=
  s.notifications.map Notification.id

def rowOfNotification (s : AbstractNotificationsModel) (id : UInt32) : Option Nat :=
  s.notifications.findIdx? (·.id = id)

-- The notifications that stay when another one comes.
def kept (s : AbstractNotificationsModel) : List Notification :=
  if notificationsLimit ≤ s.notifications.length then s.notifications.drop (notificationsLimit / 2)
  else s.notifications

def onNotificationAdded (n : Notification) (s : AbstractNotificationsModel) : AbstractNotificationsModel :=
  { s with notifications := s.kept ++ [n] }

def onNotificationReplaced (replacedId : UInt32) (n : Notification) (inhibited : Bool)
    (s : AbstractNotificationsModel) : AbstractNotificationsModel :=
  match s.rowOfNotification replacedId with
  | none => s.onNotificationAdded n
  | some row => { s with notifications := s.notifications.modify row (n.replacing inhibited) }

def onNotificationRemoved (removedId : UInt32) (reason : CloseReason) (s : AbstractNotificationsModel) :
    AbstractNotificationsModel :=
  match s.rowOfNotification removedId with
  | none => s
  | some row =>
    if reason = .expired then
      { s with notifications := s.notifications.modify row fun n => { n with expired := true }.withoutActions }
    else
      { s with
        pendingRemovals :=
          if removedId ∈ s.pendingRemovals then s.pendingRemovals else s.pendingRemovals ++ [removedId]
        pendingRemovalTimer := true }

-- The ranges of the rows, from the queue, the range and the rows that the loop has at one of its steps.
def clearQueue (queue : List (Nat × Nat)) (range : Nat × Nat) : List Nat → List (Nat × Nat)
  | [] => if queue = [] ∨ queue.getLast? ≠ some range then queue ++ [range] else queue
  | row :: rows =>
    if range.2 + 1 < row then clearQueue (queue ++ [range]) (row, row) rows
    else clearQueue queue (range.1, row) rows

-- From the last row to the first.
def removeRange (range : Nat × Nat) (notifications : List Notification) : List Notification :=
  (List.range' range.1 (range.2 + 1 - range.1)).foldr (fun row notifications => notifications.eraseIdx row) notifications

def removeRows (rows : List Nat) (s : AbstractNotificationsModel) : AbstractNotificationsModel :=
  match rows.insertionSort (· ≤ ·) with
  | [] => s
  | row :: rows =>
    { s with
      notifications := (clearQueue [] (row, row) (row :: rows)).foldr removeRange s.notifications
      pendingRemovals := [] }

-- The handler of the timer, which is single shot.
def timeout (s : AbstractNotificationsModel) : AbstractNotificationsModel :=
  { s with pendingRemovalTimer := false }.removeRows (s.pendingRemovals.filterMap s.rowOfNotification)

end AbstractNotificationsModel

def portalIdMask : UInt32 := (1 : UInt32) <<< 31

structure ServerPrivate where
  highestNotificationId : UInt32 := 1
  lastNotification      : Notification := {}

namespace ServerPrivate

-- The id of a new notification, and that of the one that follows it.
def nextNotificationId (s : ServerPrivate) : UInt32 × UInt32 :=
  let highest := if s.highestNotificationId &&& ~~~portalIdMask = 0 then 1 else s.highestNotificationId
  (highest, highest + 1)

-- The two are the same, and the second one was made less than a second after the first one.
def isExcess (last n : Notification) : Bool :=
  last.applicationName = n.applicationName ∧ last.summary = n.summary ∧ last.body = n.body ∧
    last.desktopEntry = n.desktopEntry ∧ last.eventId = n.eventId ∧ last.actionNames = n.actionNames ∧
      last.icon = n.icon ∧ last.urls = n.urls ∧ n.created - last.created < 1000

end ServerPrivate

structure Server where
  d     : ServerPrivate := {}
  model : AbstractNotificationsModel := {}

namespace Server

-- The arguments are given as the notification that is made of them, but for its id.
def notify (replacesId : UInt32) (contents : Notification) (now : Int) (inhibited : Bool) (s : Server) :
    Server × UInt32 :=
  let wasReplaced := 0 < replacesId
  let (notificationId, highest) :=
    if wasReplaced then (replacesId, s.d.highestNotificationId) else s.d.nextNotificationId
  let notification := { contents with id := notificationId }
  let s := { s with d := { s.d with highestNotificationId := highest } }
  if ServerPrivate.isExcess s.d.lastNotification notification then
    (s, 0)
  else
    let d := { s.d with lastNotification := notification }
    if wasReplaced then
      ({ d, model := s.model.onNotificationReplaced replacesId { notification with updated := some now } inhibited },
        notificationId)
    else
      ({ d, model := s.model.onNotificationAdded notification }, notificationId)

def closeNotification (id : UInt32) (reason : CloseReason) (s : Server) : Server :=
  { s with model := s.model.onNotificationRemoved id reason }

end Server

end NotificationManager
