import PlasmaModel.Lib.Runs

namespace JumpList

-- What json.load gives. An object has each of its keys once.
inductive Json
  | null
  | bool (b : Bool)
  | number (text : String)
  | string (s : String)
  | array (values : List Json)
  | object (fields : List (String × Json))

inductive Exception
  | attributeError
  | typeError
  | indexError
  | valueError
  | other

namespace Json

def get (value : Json) (key : String) (default : Json) : Except Exception Json :=
  match value with
  | object fields => .ok ((fields.lookup key).getD default)
  | _ => .error .attributeError

def iter : Json → Except Exception (List Json)
  | array values => .ok values
  | object fields => .ok (fields.map fun field => .string field.1)
  | string s => .ok (s.toList.map fun c => .string (String.singleton c))
  | _ => .error .typeError

end Json

structure ParseResult where
  scheme : String
  netloc : String
  path   : String

-- The file system, and the functions of the standard library that take URIs apart.
structure Env where
  home      : String
  icon      : String
  resolve   : String → Except Exception String
  isDir     : String → Bool
  readLines : String → Except Exception (List String)
  urlparse  : String → Except Exception ParseResult
  unquote   : String → String

structure Place where
  uri       : String
  name      : String
  timestamp : Int
deriving DecidableEq

inductive StorageFile
  | absent
  -- The file cannot be opened or its text is not JSON.
  | unreadable
  -- Reading it raises another exception.
  | raises (exception : Exception)
  | json (value : Json)

def maxRecent : Nat := 10

def pathName (path : String) : String :=
  (((path.toList.splitOn '/').filter fun part => part ≠ [] ∧ part ≠ ['.']).getLast?).elim "" String.ofList

def isSpace (c : Char) : Bool :=
  ('\t' ≤ c ∧ c ≤ '\r') ∨ ('\x1c' ≤ c ∧ c ≤ ' ') ∨ c = '\x85' ∨ c = '\u00a0' ∨ c = '\u1680' ∨
    ('\u2000' ≤ c ∧ c ≤ '\u200a') ∨ c = '\u2028' ∨ c = '\u2029' ∨ c = '\u202f' ∨ c = '\u205f' ∨ c = '\u3000'

def strip (line : List Char) : List Char :=
  ((line.dropWhile isSpace).reverse.dropWhile isSpace).reverse

-- The type and the URL that the lines of a link give, of which the last ones count.
def linkEntries : List String → Except Exception (Option (List Char) × Option (List Char))
  | [] => .ok (none, none)
  | line :: lines =>
    let line := strip line.toList
    if "Type=".toList <+: line then do
      let (desktopType, url) ← linkEntries lines
      return (desktopType <|> some (line.drop 5), url)
    else if "URL".toList <+: line then
      match line.dropWhile (· ≠ '=') with
      | [] => .error .indexError
      | _ :: rest => do
        let (desktopType, url) ← linkEntries lines
        return (desktopType, url <|> some rest)
    else
      linkEntries lines

def stripScheme (url : List Char) : List Char :=
  if "file://".toList <+: url then
    url.drop 7
  else if "file:".toList <+: url then
    (url.drop 5).dropWhile (· = '/')
  else
    url

-- The directory that the link is for. An exception on the way is caught as well.
def Env.linkTarget (env : Env) (path : String) : Except Exception String := do
  match ← linkEntries (← env.readLines path) with
  | (some desktopType, some url) =>
    if desktopType = "Link".toList ∧ url ≠ [] then do
      let resolved ← env.resolve ((String.ofList (stripScheme url)).replace "$HOME" env.home)
      if env.isDir resolved then return resolved else .error .other
    else
      .error .other
  | _ => .error .other

def Env.resolvePath (env : Env) (path : String) : Except Exception String :=
  if ".desktop".toList <:+ path.toList then
    match env.linkTarget path with
    | .ok resolved => .ok resolved
    | .error _ => env.resolve path
  else
    env.resolve path

def Env.fileUriToPath (env : Env) : Json → Except Exception (Option String)
  | .string uri => do
    let parsed ← env.urlparse uri
    if parsed.scheme ≠ "file" ∨ parsed.netloc ∉ ["", "localhost"] then
      return none
    let path := env.unquote parsed.path
    if path = "" then
      return none
    return some (← env.resolve path)
  | _ => .ok none

namespace Env

variable (env : Env) (pinned : List String)

def remember (folders : List String) (uri : Json) : Except Exception (List String) := do
  match ← env.fileUriToPath uri with
  | some path => return if path ≠ "" ∧ path ∉ folders ∧ path ∉ pinned then folders ++ [path] else folders
  | none => return folders

def rememberAll (key : String) (folders : List String) (items : List Json) : Except Exception (List String) :=
  items.foldlM (fun folders item => do env.remember pinned folders (← item.get key (.string ""))) folders

def vscodeFolders (storage : Json) : Except Exception (List String) := do
  let windowsState ← storage.get "windowsState" (.object [])
  let lastActiveWindow ← windowsState.get "lastActiveWindow" (.object [])
  let folders ← env.remember pinned [] (← lastActiveWindow.get "folder" (.string ""))
  let openedWindows ← (← windowsState.get "openedWindows" (.array [])).iter
  let folders ← env.rememberAll pinned "folder" folders openedWindows
  let backupWorkspaces ← storage.get "backupWorkspaces" (.object [])
  let items ← (← backupWorkspaces.get "folders" (.array [])).iter
  env.rememberAll pinned "folderUri" folders items

-- No folders are to be merged without a storage file that can be read.
def readStorage : StorageFile → Except Exception (Option (List String))
  | .absent | .unreadable => .ok none
  | .raises exception => .error exception
  | .json storage => do return some (← env.vscodeFolders pinned storage)

end Env

-- The entry of the last item with the path is the one that is found.
def stableEntry (now : Int) (oldRecent : List Place) (path : String) : Place :=
  { uri := path
    name := pathName path
    timestamp := ((oldRecent.reverse.find? (·.uri = path)).map Place.timestamp).getD now }

def Place.named (item : Place) : Place :=
  { item with name := if item.name = "" then pathName item.uri else item.name }

def merge (now : Int) (pinned folders : List String) (oldRecent : List Place) : List Place :=
  let rest := oldRecent.filter fun item => item.uri ≠ "" ∧ item.uri ∉ folders ∧ item.uri ∉ pinned
  (folders.map (stableEntry now oldRecent) ++ rest.map Place.named).take maxRecent

def escapeChar : Char → List Char
  | '\\' => ['\\', '\\']
  | '"' => ['\\', '"']
  | '&' => ['&', '&']
  | c => [c]

def escape (s : String) : String :=
  String.ofList (s.toList.flatMap escapeChar)

inductive ActionId
  | newEmptyWindow
  | openPinned (idx : Nat)
  | unpinPinned (idx : Nat)
  | openRecent (idx : Nat)
  | pinRecent (idx : Nat)
  | clearRecent
deriving DecidableEq

inductive Exec
  | newWindow
  | openFolder (path : String)
  | unpin (path : String)
  | pin (path : String)
  | clearRecent

def Exec.folder? : Exec → Option String
  | openFolder path => some path
  | _ => none

structure DesktopAction where
  id   : ActionId
  name : String
  exec : Exec
  icon : Option String := none

-- The list of actions of the desktop file, and its groups.
structure DesktopFile where
  icon    : String
  actions : List ActionId
  groups  : List DesktopAction

def pinnedActions (path : String) (idx : Nat) : List DesktopAction :=
  let name := escape (pathName path)
  [{ id := .openPinned idx, name, exec := .openFolder (escape path) },
    { id := .unpinPinned idx, name := "Unpin " ++ name, exec := .unpin (escape path), icon := "edit-delete" }]

def recentActions (item : Place) (idx : Nat) : List DesktopAction :=
  let name := escape item.name
  [{ id := .openRecent idx, name, exec := .openFolder (escape item.uri) },
    { id := .pinRecent idx, name := "Pin " ++ name, exec := .pin (escape item.uri), icon := "pin" }]

def desktopFile (icon : String) (pinned : List String) (recent : List Place) : DesktopFile :=
  let recent := (recent.filter (·.uri ∉ pinned)).take maxRecent
  let entries := (pinned.zipIdx 1).flatMap (fun entry => pinnedActions entry.1 entry.2) ++
    (recent.zipIdx (pinned.length + 1)).flatMap (fun entry => recentActions entry.1 entry.2)
  let newEmptyWindow := { id := .newEmptyWindow, name := "New Empty Window", exec := .newWindow, icon := icon }
  let clearRecent :=
    { id := .clearRecent, name := "Clear Recent Places", exec := .clearRecent, icon := "edit-clear-history" }
  { icon
    actions := .newEmptyWindow :: (entries.map DesktopAction.id ++ [.clearRecent])
    groups := newEmptyWindow :: (entries ++ [clearRecent]) }

-- The recent places of state.json and of its backup, if these files are there, the pinned folders of settings.json
-- and code.desktop.
structure Files where
  state   : Option (List Place) := none
  backup  : Option (List Place) := none
  pinned  : List String := []
  desktop : Option DesktopFile := none

namespace Files

def recent (s : Files) : List Place :=
  s.state.getD []

def initState (s : Files) : Files :=
  { s with state := some s.recent }

def writeState (s : Files) (recent : List Place) : Files :=
  { s with state := some recent }

def backupState (s : Files) : Files :=
  { s with backup := s.state <|> s.backup }

def regenerateDesktop (env : Env) (s : Files) : Files :=
  { s with desktop := some (desktopFile env.icon s.pinned s.recent) }

def addRecent (env : Env) (now : Int) (path : String) (s : Files) : Files :=
  let s := s.backupState
  let recent := s.recent.filter (·.uri ≠ path)
  let recent := if path ∈ s.pinned then recent else { uri := path, name := pathName path, timestamp := now } :: recent
  (s.writeState (recent.take maxRecent)).regenerateDesktop env

def pinPlace (env : Env) (path : String) (s : Files) : Files :=
  let s := if path ∈ s.pinned then s else { s with pinned := s.pinned ++ [path] }
  (s.writeState (s.recent.filter (·.uri ≠ path))).regenerateDesktop env

def unpinPlace (env : Env) (now : Int) (path : String) (s : Files) : Files :=
  let s := { s with pinned := s.pinned.erase path }
  let recent := { uri := path, name := pathName path, timestamp := now } :: s.recent.filter (·.uri ≠ path)
  (s.writeState (recent.take maxRecent)).regenerateDesktop env

def clearRecent (env : Env) (s : Files) : Files :=
  (s.backupState.writeState []).regenerateDesktop env

def syncRecentFromVSCode (env : Env) (now : Int) (storage : StorageFile) (s : Files) : Except Exception Files := do
  match ← env.readStorage s.pinned storage with
  | none => return s
  | some folders => return s.writeState (merge now s.pinned folders s.recent)

-- An exception ends the command before it comes to the desktop file.
def refreshDesktop (env : Env) (now : Int) (storage : StorageFile) (s : Files) : Files :=
  match s.syncRecentFromVSCode env now storage with
  | .ok s => s.initState.regenerateDesktop env
  | .error _ => s.initState

def restoreState (env : Env) (now : Int) (storage : StorageFile) (s : Files) : Files :=
  match s.backup with
  | some recent => { s with state := some recent }.refreshDesktop env now storage
  | none => s

end Files

inductive Command
  | add (path : String)
  | pin (path : String)
  | unpin (path : String)
  | clearRecent
  | refresh (storage : StorageFile)
  | restore (storage : StorageFile)

structure Event where
  env     : Env
  now     : Int
  command : Command

namespace Files

def withPath (env : Env) (path : String) (command : String → Files → Files) (s : Files) : Files :=
  match env.resolvePath path with
  | .ok path => command path s
  | .error _ => s

def step (s : Files) (event : Event) : Option Files :=
  let ⟨env, now, command⟩ := event
  match command with
  | .add path => some (s.withPath env path (addRecent env now))
  | .pin path => some (s.withPath env path (pinPlace env))
  | .unpin path => some (s.withPath env path (unpinPlace env now))
  | .clearRecent => some (s.clearRecent env)
  | .refresh storage => some (s.refreshDesktop env now storage)
  | .restore storage => some (s.restoreState env now storage)

end Files
end JumpList
