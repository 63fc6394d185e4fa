import PlasmaModel.Lib.Hash
import PlasmaModel.Lib.Runs

namespace Klipper

inductive HistoryItemType
  | text
  | image
  | url
deriving DecidableEq

structure HistoryItem where
  uuid      : String
  mimeTypes : List String
  text      : String

namespace HistoryItem

def hasText (item : HistoryItem) : Bool :=
  item.mimeTypes.any fun mimeType => "text/".toList <+: mimeType.toList

def hasUrl (item : HistoryItem) : Bool :=
  item.mimeTypes.contains "text/uri-list"

def hasImage (item : HistoryItem) : Bool :=
  item.mimeTypes.any fun mimeType => "image/".toList <+: mimeType.toList ∨ mimeType = "application/x-qt-image"

def type (item : HistoryItem) : HistoryItemType :=
  if item.hasUrl then .url
  else if item.hasText ∧ item.text ≠ "" then .text
  else if item.hasImage then .image
  else .text

end HistoryItem

structure MimeData where
  type : String
  uuid : String

-- The contents of a QMimeData as `insert` takes them: the uuid that is computed from them, and the data that are to be
-- stored for each of their types.
structure Clip where
  uuid         : String
  formats      : List String
  text         : String
  mimeDataList : List MimeData
  nonempty     : mimeDataList ≠ [] := by decide

-- Times count milliseconds. The column `starred` may be NULL as well, which is read as false.
structure MainRow where
  addedTime    : Int
  lastUsedTime : Int
  mimeTypes    : List String
  text         : String
  starred      : Bool
deriving DecidableEq

abbrev Row := Sigma fun _ : String => MainRow

namespace MainRow

-- ORDER BY last_used_time DESC, added_time DESC.
def Precedes (a b : MainRow) : Prop :=
  b.lastUsedTime < a.lastUsedTime ∨ a.lastUsedTime = b.lastUsedTime ∧ b.addedTime ≤ a.addedTime

instance (a b : MainRow) : Decidable (a.Precedes b) :=
  inferInstanceAs (Decidable (_ ∨ _))

end MainRow

-- The uuid of a row is a hash, which is not empty.
def HistoryItem.create (row : Row) : HistoryItem :=
  { uuid := row.1, mimeTypes := row.2.mimeTypes, text := row.2.text }

-- A job that has started and waits for its directory.
structure UpdateDatabaseJob where
  uuid         : String
  mimeDataList : List MimeData
  nonempty     : mimeDataList ≠ []

-- The primary keys are the keys of the tables: the uuid, and the uuid with the mime type.
abbrev MainTable := AList fun _ : String => MainRow
abbrev AuxTable := AList fun _ : String × String => String

structure HistoryModel where
  items        : List HistoryItem := []
  starredCount : Int := 0
  maxSize      : Int := 0
  main         : MainTable := ∅
  aux          : AuxTable := ∅
  jobs         : List UpdateDatabaseJob := []

namespace HistoryModel

def uuids (s : HistoryModel) : List String :=
  s.items.map HistoryItem.uuid

def isItemStarred (s : HistoryModel) (uuid : String) : Bool :=
  (s.main.lookup uuid).any MainRow.starred

def indexOf (s : HistoryModel) (uuid : String) : Option Nat :=
  s.items.findIdx? (·.uuid = uuid)

def updateMain (s : HistoryModel) (uuid : String) (update : MainRow → MainRow) : HistoryModel :=
  match s.main.lookup uuid with
  | some row => { s with main := s.main.insert uuid (update row) }
  | none => s

-- DELETE FROM aux WHERE uuid IN (...), and the same for main.
def deleteAux (uuids : List String) (aux : AuxTable) : AuxTable :=
  (aux.keys.filter (·.1 ∈ uuids)).foldl (fun aux key => aux.erase key) aux

def deleteRows (s : HistoryModel) (uuids : List String) : HistoryModel :=
  { s with
    main := uuids.foldl (fun main uuid => main.erase uuid) s.main
    aux := deleteAux uuids s.aux }

-- The clipboard, which gets the first item, is left out.
def changed (now : Int) (isTop : Bool) (s : HistoryModel) : HistoryModel :=
  match s.items with
  | [] => s
  | item :: _ => if isTop then s.updateMain item.uuid ({ · with lastUsedTime := now }) else s

def removeRows (now : Int) (row count : Nat) (s : HistoryModel) : HistoryModel :=
  if s.items.length < row + count then
    s
  else
    let removed := ((s.items.drop row).take count).map HistoryItem.uuid
    { s.deleteRows removed with
      items := s.items.take row ++ s.items.drop (row + count)
      starredCount := s.starredCount - removed.countP s.isItemStarred }.changed now (row = 0)

def removeRow (now : Int) (row : Nat) (s : HistoryModel) : HistoryModel :=
  s.removeRows now row 1

def moveRowToTop (now : Int) (row : Nat) (s : HistoryModel) : HistoryModel :=
  match s.items[row]? with
  | some item => { s with items := item :: s.items.eraseIdx row }.changed now true
  | none => s

def moveToTop (now : Int) (uuid : String) (s : HistoryModel) : HistoryModel :=
  match s.indexOf uuid with
  | some row => s.moveRowToTop now row
  | none => s

-- The row of the last item that is not starred, below `n`.
def lastNonStarred (s : HistoryModel) : Nat → Option Nat
  | 0 => none
  | row + 1 =>
    match s.items[row]? with
    | some item => if s.isItemStarred item.uuid then s.lastNonStarred row else some row
    | none => s.lastNonStarred row

def evict (now : Int) (s : HistoryModel) : HistoryModel :=
  match s.lastNonStarred s.items.length with
  | some row => s.removeRow now row
  | none => s

-- INSERT INTO main. The job goes on when there is a directory for its data.
def startJob (now : Int) (clip : Clip) (s : HistoryModel) : HistoryModel :=
  if clip.uuid ∈ s.main then
    s
  else
    { s with
      main := s.main.insert clip.uuid
        { addedTime := now, lastUsedTime := now, mimeTypes := clip.mimeDataList.map MimeData.type, text := clip.text
          starred := false }
      jobs := s.jobs ++ [⟨clip.uuid, clip.mimeDataList, clip.nonempty⟩] }

-- The uuid is as long as that of any hash. A timestamp that is given is taken for `now` by the job.
def insert (now timestamp : Int) (clip : Clip) (s : HistoryModel) : HistoryModel × Bool :=
  if s.maxSize = 0 then
    (s, false)
  else
    match s.indexOf clip.uuid with
    | some row => (s.moveRowToTop now row, true)
    | none =>
      if clip.formats = [] ∨ 50 < clip.formats.length then
        (s, false)
      else
        let s := { s with items := ⟨clip.uuid, clip.formats, clip.text⟩ :: s.items }.changed now true
        let s := if s.maxSize < s.items.length then s.evict now else s
        (s.startJob (if timestamp = 0 then now else timestamp) clip, true)

-- INSERT INTO aux for each of the data. A row whose key is taken is not written.
def insertAux (uuid : String) (data : List MimeData) (aux : AuxTable) : AuxTable :=
  data.foldl (fun aux data => if (uuid, data.type) ∈ aux then aux else aux.insert (uuid, data.type) data.uuid) aux

def onDataDirReady (job : UpdateDatabaseJob) (error : Bool) (s : HistoryModel) : HistoryModel :=
  if error then s else { s with aux := insertAux job.uuid job.mimeDataList s.aux }

def removeLast (now : Int) : Nat → Nat → HistoryModel → HistoryModel
  | 0, _, s => s
  | _ + 1, 0, s => s
  | row + 1, count + 1, s =>
    match s.items[row]? with
    | some item =>
      if s.isItemStarred item.uuid then s.removeLast now row (count + 1)
      else (s.removeRow now row).removeLast now row count
    | none => s.removeLast now row (count + 1)

def setMaxSize (now size : Int) (s : HistoryModel) : HistoryModel :=
  if s.maxSize = size then
    s
  else
    let s := { s with maxSize := size }
    if size < s.items.length then s.removeLast now s.items.length (s.items.length - size).toNat else s

def nonStarredUuids (s : HistoryModel) : List String :=
  (s.main.entries.filter fun row => !row.2.starred).map Sigma.fst

def clearNonStarredHistory (now : Int) (s : HistoryModel) : HistoryModel :=
  let nonStarred := s.nonStarredUuids
  if nonStarred = [] then
    s
  else
    { s.deleteRows nonStarred with items := s.items.filter (·.uuid ∉ nonStarred) }.changed now true

-- The statements of a transaction, of which none has an effect if one fails.
def renameRow (uuid newUuid text : String) (mimeTypes : List String) (s : HistoryModel) : Option HistoryModel :=
  match s.main.lookup uuid with
  | some row =>
    if newUuid ∈ s.main.erase uuid then
      none
    else
      some { s with main := (s.main.erase uuid).insert newUuid { row with mimeTypes, text } }
  | none => some s

def insertAuxAll (uuid : String) : List String → AuxTable → Option AuxTable
  | [], aux => some aux
  | mimeType :: mimeTypes, aux =>
    if (uuid, mimeType) ∈ aux then none else insertAuxAll uuid mimeTypes (aux.insert (uuid, mimeType) uuid)

def textMimeTypes : List String :=
  ["text/plain", "text/plain;charset=utf-8"]

-- The hash of the text is `newUuid`.
def setText (now : Int) (row : Nat) (text newUuid : String) (s : HistoryModel) : HistoryModel :=
  match s.items[row]? with
  | none => s
  | some item =>
    if item.type ≠ .text ∨ text = item.text then
      s
    else
      match s.renameRow item.uuid newUuid text textMimeTypes,
        insertAuxAll newUuid textMimeTypes (deleteAux [item.uuid] s.aux) with
      | some s, some aux =>
        { s with aux, items := s.items.set row ⟨newUuid, textMimeTypes, text⟩ }.changed now (row = 0)
      | _, _ => s

def setStarred (row : Nat) (value : Bool) (s : HistoryModel) : HistoryModel :=
  match s.items[row]? with
  | none => s
  | some item =>
    if value = s.isItemStarred item.uuid then
      s
    else
      { s.updateMain item.uuid ({ · with starred := value }) with
        starredCount := s.starredCount + if value then 1 else -1 }

-- The rows of the main table as a query for them answers. Those of the same times may come in any order.
structure Selects (s : HistoryModel) (rows : List Row) : Prop where
  perm   : rows.Perm s.main.entries
  sorted : rows.Pairwise fun a b => a.2.Precedes b.2

instance (s : HistoryModel) (rows : List Row) : Decidable (s.Selects rows) :=
  decidable_of_iff (rows.Perm s.main.entries ∧ rows.Pairwise fun a b => a.2.Precedes b.2)
    ⟨fun h => ⟨h.1, h.2⟩, fun h => ⟨h.perm, h.sorted⟩⟩

-- LIMIT, which is none if it is negative.
def limit (maxSize : Int) (rows : List Row) : List Row :=
  if maxSize < 0 then rows else rows.take maxSize.toNat

def loadHistory (rows : List Row) (s : HistoryModel) : HistoryModel :=
  if s.maxSize = 0 then
    s
  else
    let rows := limit s.maxSize rows
    { s with items := rows.map HistoryItem.create, starredCount := rows.countP (·.2.starred) }

-- A new process before it has loaded the tables that the last one has left.
def restart (keepContents : Bool) (s : HistoryModel) : HistoryModel :=
  if keepContents then { maxSize := s.maxSize, main := s.main, aux := s.aux } else { maxSize := s.maxSize }

-- The job that a call has started, if there is one, goes on to its end.
def complete (error : Bool) (s : HistoryModel) : HistoryModel :=
  s.jobs.foldl (fun s job => s.onDataDirReady job error) { s with jobs := [] }

end HistoryModel

inductive Call
  | insert (now timestamp : Int) (clip : Clip)
  | removeRows (now : Int) (row count : Nat)
  | setText (now : Int) (row : Nat) (text newUuid : String)
  | setStarred (row : Nat) (value : Bool)
  | setMaxSize (now size : Int)
  | clearNonStarredHistory (now : Int)
  | moveToTop (now : Int) (uuid : String)

namespace HistoryModel

def call (s : HistoryModel) : Call → HistoryModel
  | .insert now timestamp clip => (s.insert now timestamp clip).1
  | .removeRows now row count => s.removeRows now row count
  | .setText now row text newUuid => s.setText now row text newUuid
  | .setStarred row value => s.setStarred row value
  | .setMaxSize now size => s.setMaxSize now size
  | .clearNonStarredHistory now => s.clearNonStarredHistory now
  | .moveToTop now uuid => s.moveToTop now uuid

end HistoryModel
end Klipper
