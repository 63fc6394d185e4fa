import Mathlib.Data.Finmap

namespace KWin

variable {Property Value Plane Buffer : Type} [DecidableEq Property] [DecidableEq Plane]

-- A property of an object of the kernel is one key. A plane may be committed without a buffer. The times are in
-- nanoseconds.
structure DrmAtomicCommit (Property Value Plane Buffer : Type) where
  properties         : Finmap fun _ : Property => Value
  buffers            : Finmap fun _ : Plane => Option Buffer
  vrr                : Option Bool
  targetPageflipTime : Option Int
  allowedVrrDelay    : Option Int

namespace DrmAtomicCommit

variable (isReadable : Buffer → Bool)

def areBuffersReadable (commit : DrmAtomicCommit Property Value Plane Buffer) : Bool :=
  commit.buffers.all fun _ buffer => buffer.all isReadable

def pageflipSlop : Int :=
  500000

def isReadyFor (pageflipTarget : Int) (commit : DrmAtomicCommit Property Value Plane Buffer) : Bool :=
  (commit.targetPageflipTime.all fun target => target ≤ pageflipTarget + pageflipSlop) &&
    commit.areBuffersReadable isReadable

def modifiedPlanes (commit : DrmAtomicCommit Property Value Plane Buffer) : Finset Plane :=
  commit.buffers.keys

def merge (commit onTop : DrmAtomicCommit Property Value Plane Buffer) :
    DrmAtomicCommit Property Value Plane Buffer where
  properties := onTop.properties ∪ commit.properties
  buffers    := onTop.buffers ∪ commit.buffers
  vrr        := onTop.vrr.or commit.vrr
  targetPageflipTime :=
    match commit.targetPageflipTime, onTop.targetPageflipTime with
    | none, target => target
    | some target, none => some target
    | some target, some onTopTarget => some (min target onTopTarget)
  allowedVrrDelay :=
    match commit.allowedVrrDelay, onTop.allowedVrrDelay with
    | some delay, some onTopDelay => some (min delay onTopDelay)
    | _, _ => none

end DrmAtomicCommit
end KWin

namespace KWin

variable {Property Value Plane Buffer : Type} [DecidableEq Property] [DecidableEq Plane]

-- A commit that is owned by one of the lists of the thread. The id tells apart the objects.
structure DrmCommitRef (Property Value Plane Buffer : Type) where
  id     : Nat
  commit : DrmAtomicCommit Property Value Plane Buffer

structure DrmCommitThread (Property Value Plane Buffer : Type) where
  commits         : List (DrmCommitRef Property Value Plane Buffer)
  commitsToDelete : List (DrmCommitRef Property Value Plane Buffer) := []
  nextId          : Nat

def DrmCommitRef.isReadyFor (isReadable : Buffer → Bool) (pageflipTarget : Int)
    (ref : DrmCommitRef Property Value Plane Buffer) : Bool :=
  ref.commit.isReadyFor isReadable pageflipTarget

def DrmCommitRef.modifiedPlanes (ref : DrmCommitRef Property Value Plane Buffer) : Finset Plane :=
  ref.commit.modifiedPlanes

def mergeCommits (front : DrmCommitRef Property Value Plane Buffer)
    (commits : List (DrmCommitRef Property Value Plane Buffer)) : DrmAtomicCommit Property Value Plane Buffer :=
  commits.foldl (fun ret onTop => ret.merge onTop.commit) front.commit

namespace DrmCommitThread

-- `test` is what the kernel answers to the tests that are made to find out if the commit with the id can be moved.
variable (isReadable : Buffer → Bool) (test : Nat → Nat → Bool) (pageflipTarget : Int)

-- A new commit is allocated.
def allocate (t : DrmCommitThread Property Value Plane Buffer) (commit : DrmAtomicCommit Property Value Plane Buffer) :
    DrmCommitRef Property Value Plane Buffer × DrmCommitThread Property Value Plane Buffer :=
  (⟨t.nextId, commit⟩, { t with nextId := t.nextId + 1 })

-- A run of commits is replaced with what they merge to. A single commit is not touched.
def mergeRuns (t : DrmCommitThread Property Value Plane Buffer) :
    List (DrmCommitRef Property Value Plane Buffer × List (DrmCommitRef Property Value Plane Buffer)) →
      DrmCommitThread Property Value Plane Buffer
  | [] => t
  | (start, []) :: runs => mergeRuns { t with commits := t.commits ++ [start] } runs
  | (start, commit :: run) :: runs =>
    let (merged, t) := t.allocate (mergeCommits start (commit :: run))
    mergeRuns
      { t with
        commits := t.commits ++ [merged]
        commitsToDelete := t.commitsToDelete ++ start :: commit :: run }
      runs

-- The commits in the front that are already ready.
def readyRuns : List (DrmCommitRef Property Value Plane Buffer) →
    List (DrmCommitRef Property Value Plane Buffer × List (DrmCommitRef Property Value Plane Buffer))
  | [] => []
  | front :: commits =>
    if front.commit.areBuffersReadable isReadable then
      (front, commits.takeWhile (·.isReadyFor isReadable pageflipTarget)) ::
        (commits.dropWhile (·.isReadyFor isReadable pageflipTarget)).map fun commit => (commit, [])
    else
      (front :: commits).map fun commit => (commit, [])

-- The commits that are ready and modify the same planes as the one at their start.
def samePlaneRun (start : DrmCommitRef Property Value Plane Buffer)
    (run : List (DrmCommitRef Property Value Plane Buffer)) :
    List (DrmCommitRef Property Value Plane Buffer) →
      List (DrmCommitRef Property Value Plane Buffer × List (DrmCommitRef Property Value Plane Buffer))
  | [] => [(start, run)]
  | commit :: commits =>
    if start.modifiedPlanes ≠ commit.modifiedPlanes || !commit.isReadyFor isReadable pageflipTarget then
      (start, run) :: samePlaneRun commit [] commits
    else
      samePlaneRun start (run ++ [commit]) commits

def samePlaneRuns : List (DrmCommitRef Property Value Plane Buffer) →
    List (DrmCommitRef Property Value Plane Buffer × List (DrmCommitRef Property Value Plane Buffer))
  | [] => []
  | start :: commits => samePlaneRun isReadable pageflipTarget start [] commits

def mergeFront (t : DrmCommitThread Property Value Plane Buffer) : DrmCommitThread Property Value Plane Buffer :=
  mergeRuns { t with commits := [] } (readyRuns isReadable pageflipTarget t.commits)

def mergeSamePlanes (t : DrmCommitThread Property Value Plane Buffer) : DrmCommitThread Property Value Plane Buffer :=
  mergeRuns { t with commits := [] } (samePlaneRuns isReadable pageflipTarget t.commits)

-- The front is copied.
def takeFront (t : DrmCommitThread Property Value Plane Buffer) :
    Option (DrmCommitRef Property Value Plane Buffer) × DrmCommitThread Property Value Plane Buffer :=
  match t.commits with
  | [] => (none, t)
  | first :: commits =>
    if first.isReadyFor isReadable pageflipTarget then
      let (front, t) := t.allocate first.commit
      (front, { t with commits, commitsToDelete := t.commitsToDelete ++ [first] })
    else
      (none, t)

-- The rest of the queue is tested on top of the moved commit, up to the first failure.
def testOthers (id i : Nat) (duplicate : DrmAtomicCommit Property Value Plane Buffer) :
    List (DrmCommitRef Property Value Plane Buffer) → DrmAtomicCommit Property Value Plane Buffer × Bool
  | [] => (duplicate, true)
  | other :: others =>
    let duplicate := duplicate.merge other.commit
    if test id i then
      testOthers id (i + 1) duplicate others
    else
      (duplicate, false)

-- The duplicate, if one has been made, and whether the modified order works.
def testOrder (front : Option (DrmCommitRef Property Value Plane Buffer))
    (commit : DrmCommitRef Property Value Plane Buffer) (others : List (DrmCommitRef Property Value Plane Buffer)) :
    Option (DrmAtomicCommit Property Value Plane Buffer) × Bool :=
  match front with
  | some front =>
    let duplicate := front.commit.merge commit.commit
    if test commit.id 0 then
      let (duplicate, success) := testOthers test commit.id 1 duplicate others
      (some duplicate, success)
    else
      (some duplicate, false)
  | none =>
    if test commit.id 0 then
      let (duplicate, success) := testOthers test commit.id 1 commit.commit others
      (some duplicate, success)
    else
      (none, false)

def deleteDuplicate (t : DrmCommitThread Property Value Plane Buffer)
    (duplicate : Option (DrmAtomicCommit Property Value Plane Buffer)) :
    DrmCommitThread Property Value Plane Buffer :=
  match duplicate with
  | some duplicate =>
    let (duplicate, t) := t.allocate duplicate
    { t with commitsToDelete := t.commitsToDelete ++ [duplicate] }
  | none => t

-- The commit is merged into the front, or a copy of it becomes the front.
def moveToFront (t : DrmCommitThread Property Value Plane Buffer)
    (front : Option (DrmCommitRef Property Value Plane Buffer)) (commit : DrmCommitRef Property Value Plane Buffer) :
    DrmCommitRef Property Value Plane Buffer × DrmCommitThread Property Value Plane Buffer :=
  match front with
  | some front =>
    ({ front with commit := front.commit.merge commit.commit },
      { t with commitsToDelete := t.commitsToDelete ++ [commit] })
  | none =>
    let (front, t) := t.allocate commit.commit
    (front, { t with commitsToDelete := t.commitsToDelete ++ [commit] })

-- Commits that target the same planes need to stay in the same order.
def skipping (before : List (DrmCommitRef Property Value Plane Buffer))
    (commit : DrmCommitRef Property Value Plane Buffer) : Bool :=
  before.any fun other => decide (∃ plane ∈ commit.modifiedPlanes, plane ∈ other.modifiedPlanes)

-- The commits in `before` stay in the queue. In the end the front is put before them.
def moveReady (t : DrmCommitThread Property Value Plane Buffer)
    (front : Option (DrmCommitRef Property Value Plane Buffer))
    (before : List (DrmCommitRef Property Value Plane Buffer)) :
    List (DrmCommitRef Property Value Plane Buffer) → DrmCommitThread Property Value Plane Buffer
  | [] => { t with commits := front.toList ++ before }
  | commit :: commits =>
    if !commit.isReadyFor isReadable pageflipTarget || skipping before commit then
      moveReady t front (before ++ [commit]) commits
    else
      let (duplicate, success) := testOrder test front commit (before ++ commits)
      let t := t.deleteDuplicate duplicate
      if success then
        let (front, t) := t.moveToFront front commit
        moveReady t front before commits
      else
        moveReady t front (before ++ [commit]) commits

def reorder (t : DrmCommitThread Property Value Plane Buffer) : DrmCommitThread Property Value Plane Buffer :=
  let (front, t) := t.takeFront isReadable pageflipTarget
  match t.commits with
  | [] => t
  | first :: commits => t.moveReady isReadable test pageflipTarget front [first] commits

def optimizeCommits (t : DrmCommitThread Property Value Plane Buffer) :
    DrmCommitThread Property Value Plane Buffer :=
  if t.commits.length ≤ 1 then
    t
  else
    let t := (t.mergeFront isReadable pageflipTarget).mergeSamePlanes isReadable pageflipTarget
    if t.commits.length = 1 then
      t
    else
      t.reorder isReadable test pageflipTarget

end DrmCommitThread
end KWin
