import PlasmaModel.Drm.CommitThread
import PlasmaModel.Lib.Folds

namespace KWin

open LastSome

variable {Property Value Plane Buffer : Type} [DecidableEq Property] [DecidableEq Plane]

namespace DrmAtomicCommit

variable {a b c : DrmAtomicCommit Property Value Plane Buffer} {property : Property} {plane : Plane}

theorem lookup_union {Key : Type} {Entry : Type} [DecidableEq Key] (m n : Finmap fun _ : Key => Entry) (key : Key) :
    (m ∪ n).lookup key = (m.lookup key).or (n.lookup key) := by
  by_cases h : key ∈ m
  case pos =>
    have ⟨entry, he⟩ := Finmap.mem_iff.mp h
    rw [Finmap.lookup_union_left h, he, Option.some_or]
  case neg => rw [Finmap.lookup_union_right h, Finmap.lookup_eq_none.mpr h, Option.none_or]

theorem lookup_merge_properties :
    (a.merge b).properties.lookup property = (b.properties.lookup property).or (a.properties.lookup property) :=
  lookup_union ..

theorem lookup_merge_buffers :
    (a.merge b).buffers.lookup plane = (b.buffers.lookup plane).or (a.buffers.lookup plane) :=
  lookup_union ..

omit [DecidableEq Property] in
theorem mem_modifiedPlanes : plane ∈ a.modifiedPlanes ↔ a.buffers.lookup plane ≠ none := by
  rw [modifiedPlanes, Finmap.mem_keys, Ne, Finmap.lookup_eq_none, not_not]

theorem merge_assoc : (a.merge b).merge c = a.merge (b.merge c) := by
  have htarget : ((a.merge b).merge c).targetPageflipTime = (a.merge (b.merge c)).targetPageflipTime := by
    simp only [merge]
    cases a.targetPageflipTime <;> cases b.targetPageflipTime <;> cases c.targetPageflipTime <;> simp [min_assoc]
  have hdelay : ((a.merge b).merge c).allowedVrrDelay = (a.merge (b.merge c)).allowedVrrDelay := by
    simp only [merge]
    cases a.allowedVrrDelay <;> cases b.allowedVrrDelay <;> cases c.allowedVrrDelay <;> simp [min_assoc]
  simp only [merge] at htarget hdelay ⊢
  rw [htarget, hdelay, Finmap.union_assoc, Finmap.union_assoc, Option.or_assoc]

end DrmAtomicCommit

-- What the commits of a queue make the kernel do when all of them have been committed.
structure DrmUpdate (Property Value Plane Buffer : Type) where
  properties : Finmap fun _ : Property => Value
  buffers    : Finmap fun _ : Plane => Option Buffer
  vrr        : Option Bool

namespace DrmUpdate

def merge (update : DrmUpdate Property Value Plane Buffer) (ref : DrmCommitRef Property Value Plane Buffer) :
    DrmUpdate Property Value Plane Buffer where
  properties := ref.commit.properties ∪ update.properties
  buffers    := ref.commit.buffers ∪ update.buffers
  vrr        := ref.commit.vrr.or update.vrr

def ofQueue (commits : List (DrmCommitRef Property Value Plane Buffer)) : DrmUpdate Property Value Plane Buffer :=
  commits.foldl merge ⟨∅, ∅, none⟩

variable {commits commits' : List (DrmCommitRef Property Value Plane Buffer)} {property : Property} {plane : Plane}

theorem ofQueue_eq (commits : List (DrmCommitRef Property Value Plane Buffer)) :
    (∀ property, (ofQueue commits).properties.lookup property =
        lastSome (fun ref => ref.commit.properties.lookup property) commits) ∧
      (∀ plane, (ofQueue commits).buffers.lookup plane =
        lastSome (fun ref => ref.commit.buffers.lookup plane) commits) ∧
      (ofQueue commits).vrr = lastSome (fun ref => ref.commit.vrr) commits := by
  induction commits using List.reverseRecOn
  case nil => exact ⟨fun _ => Finmap.lookup_empty _, fun _ => Finmap.lookup_empty _, rfl⟩
  case append_singleton commits ref ih =>
    have ⟨hp, hb, hv⟩ := ih
    rw [ofQueue, List.foldl_concat]
    refine ⟨fun property => ?_, fun plane => ?_, ?_⟩
    case refine_1 => exact (DrmAtomicCommit.lookup_union ..).trans (by rw [lastSome_concat, ← hp]; rfl)
    case refine_2 => exact (DrmAtomicCommit.lookup_union ..).trans (by rw [lastSome_concat, ← hb]; rfl)
    case refine_3 => rw [lastSome_concat, ← hv]; rfl

theorem ofQueue_inj : ofQueue commits = ofQueue commits' ↔
    (∀ property, lastSome (fun ref => ref.commit.properties.lookup property) commits =
        lastSome (fun ref => ref.commit.properties.lookup property) commits') ∧
      (∀ plane, lastSome (fun ref => ref.commit.buffers.lookup plane) commits =
        lastSome (fun ref => ref.commit.buffers.lookup plane) commits') ∧
      lastSome (fun ref => ref.commit.vrr) commits = lastSome (fun ref => ref.commit.vrr) commits' := by
  have ⟨hp, hb, hv⟩ := ofQueue_eq commits
  have ⟨hp', hb', hv'⟩ := ofQueue_eq commits'
  simp only [← hp, ← hp', ← hb, ← hb', ← hv, ← hv']
  constructor
  case mp => exact fun h => ⟨fun _ => by rw [h], fun _ => by rw [h], by rw [h]⟩
  case mpr =>
    intro ⟨hp, hb, hv⟩
    have hp := Finmap.ext_lookup hp
    have hb := Finmap.ext_lookup hb
    cases hc : ofQueue commits
    cases hc' : ofQueue commits'
    simp_all

end DrmUpdate

-- A commit of the queue with those it has been merged from, in the order in which they have been merged.
structure MergedCommit (Property Value Plane Buffer : Type) [DecidableEq Property] [DecidableEq Plane] where
  ref    : DrmCommitRef Property Value Plane Buffer
  start  : DrmCommitRef Property Value Plane Buffer
  run    : List (DrmCommitRef Property Value Plane Buffer)
  merged : ref.commit = mergeCommits start run

namespace MergedCommit

variable {groups : List (MergedCommit Property Value Plane Buffer)} {group : MergedCommit Property Value Plane Buffer}
variable {a : DrmAtomicCommit Property Value Plane Buffer} {start : DrmCommitRef Property Value Plane Buffer}
variable {run before mid after : List (DrmCommitRef Property Value Plane Buffer)} {plane : Plane}

def members (group : MergedCommit Property Value Plane Buffer) : List (DrmCommitRef Property Value Plane Buffer) :=
  group.start :: group.run

def single (ref : DrmCommitRef Property Value Plane Buffer) : MergedCommit Property Value Plane Buffer where
  ref    := ref
  start  := ref
  run    := []
  merged := rfl

theorem merge_mergeCommits :
    a.merge (mergeCommits start run) = (start :: run).foldl (fun ret onTop => ret.merge onTop.commit) a := by
  induction run using List.reverseRecOn
  case nil => rfl
  case append_singleton run ref ih =>
    rw [mergeCommits, List.foldl_concat, ← DrmAtomicCommit.merge_assoc, ← List.cons_append, List.foldl_concat, ← ih]
    rfl

theorem foldl_refs :
    (groups.map ref).foldl (fun ret onTop => ret.merge onTop.commit) a =
      (groups.flatMap members).foldl (fun ret onTop => ret.merge onTop.commit) a := by
  induction groups generalizing a
  case nil => rfl
  case cons group groups ih =>
    rw [List.map_cons, List.foldl_cons, ih, List.flatMap_cons, List.foldl_append, group.merged, merge_mergeCommits]
    rfl

-- An observation that a merged commit takes from the last of its members that has it.
theorem observe_mergeCommits {Seen : Type} {f : DrmAtomicCommit Property Value Plane Buffer → Option Seen}
    (hf : ∀ a b, f (DrmAtomicCommit.merge a b) = (f b).or (f a)) :
    f (mergeCommits start run) = lastSome (fun ref => f ref.commit) (start :: run) := by
  induction run using List.reverseRecOn
  case nil => simp [mergeCommits, lastSome_cons]
  case append_singleton run ref ih =>
    rw [mergeCommits, List.foldl_concat, hf, ← List.cons_append, lastSome_concat, ← ih]
    rfl

theorem observe_members (group : MergedCommit Property Value Plane Buffer) {Seen : Type} {f : DrmAtomicCommit Property Value Plane Buffer → Option Seen}
    (hf : ∀ a b, f (DrmAtomicCommit.merge a b) = (f b).or (f a)) :
    f group.ref.commit = lastSome (fun ref => f ref.commit) group.members := by
  rw [group.merged, observe_mergeCommits hf]
  rfl

theorem observe_refs {Seen : Type} {f : DrmAtomicCommit Property Value Plane Buffer → Option Seen}
    (hf : ∀ a b, f (DrmAtomicCommit.merge a b) = (f b).or (f a)) :
    lastSome (fun ref => f ref.commit) (groups.map ref) =
      lastSome (fun ref => f ref.commit) (groups.flatMap members) := by
  rw [lastSome_map, lastSome_flatMap]
  congr 1
  exact funext fun group => observe_members group hf

theorem ofQueue_refs : DrmUpdate.ofQueue (groups.map ref) = DrmUpdate.ofQueue (groups.flatMap members) :=
  DrmUpdate.ofQueue_inj.mpr ⟨
    fun property => observe_refs (f := fun commit => commit.properties.lookup property) fun _ _ =>
      DrmAtomicCommit.lookup_merge_properties,
    fun plane => observe_refs (f := fun commit => commit.buffers.lookup plane) fun _ _ =>
      DrmAtomicCommit.lookup_merge_buffers,
    observe_refs (f := fun commit => commit.vrr) fun _ _ => rfl⟩

theorem mem_modifiedPlanes :
    plane ∈ group.ref.modifiedPlanes ↔ ∃ ref ∈ group.members, plane ∈ ref.modifiedPlanes := by
  have h := observe_members group (f := fun commit => commit.buffers.lookup plane) fun _ _ =>
    DrmAtomicCommit.lookup_merge_buffers
  rw [DrmCommitRef.modifiedPlanes, DrmAtomicCommit.mem_modifiedPlanes, h, Ne, lastSome_eq_none]
  simp only [DrmCommitRef.modifiedPlanes, DrmAtomicCommit.mem_modifiedPlanes, not_forall, exists_prop, ne_eq]

-- The commits of one queue have been merged to those of another one, in order.
def Groups (before after : List (DrmCommitRef Property Value Plane Buffer)) : Prop :=
  ∃ groups : List (MergedCommit Property Value Plane Buffer), groups.map ref = after ∧ groups.flatMap members = before

theorem Groups.refl : Groups before before :=
  ⟨before.map single, by simp [single, Function.comp_def], by simp [single, members, List.flatMap_map]⟩

theorem Groups.append {before' after'} (h : Groups before after) (h' : Groups before' after') :
    Groups (before ++ before' : List (DrmCommitRef Property Value Plane Buffer)) (after ++ after') := by
  have ⟨groups, hr, hm⟩ := h
  have ⟨groups', hr', hm'⟩ := h'
  exact ⟨groups ++ groups', by rw [List.map_append, hr, hr'], by rw [List.flatMap_append, hm, hm']⟩

theorem Groups.trans (h : Groups before mid) (h' : Groups mid after) : Groups before after := by
  have ⟨inner, hr, hm⟩ := h
  have ⟨outer, hr', hm'⟩ := h'
  clear h h'
  induction outer generalizing inner before mid after
  case nil =>
    cases hm'
    cases List.map_eq_nil_iff.mp hr
    cases hr'
    cases hm
    exact ⟨[], rfl, rfl⟩
  case cons group outer ih =>
    rw [← hm', List.flatMap_cons, members, List.cons_append] at hr
    have ⟨first, rest, hi, hs, hrest⟩ := List.map_eq_cons_iff.mp hr
    have ⟨joined, others, hrest, hj, ho⟩ := List.map_eq_append_iff.mp hrest
    have ⟨groups, hg, hgm⟩ := ih others ho rfl rfl rfl
    have hmerged : group.ref.commit = mergeCommits first.start (first.run ++ joined.flatMap members) := by
      rw [group.merged, ← hs, ← hj, mergeCommits, foldl_refs, first.merged, mergeCommits, mergeCommits,
        List.foldl_append]
    refine ⟨⟨group.ref, first.start, _, hmerged⟩ :: groups, ?_, ?_⟩
    case refine_1 => rw [List.map_cons, hg, ← hr', List.map_cons]
    case refine_2 =>
      rw [List.flatMap_cons, hgm, ← hm, hi, hrest, List.flatMap_cons, List.flatMap_append]
      simp [members]

theorem Groups.update (h : Groups before after) : DrmUpdate.ofQueue after = DrmUpdate.ofQueue before := by
  have ⟨groups, hr, hm⟩ := h
  rw [← hr, ← hm, ofQueue_refs]

end MergedCommit

namespace DrmCommitThread

open MergedCommit

variable {isReadable : Buffer → Bool} {pageflipTarget : Int} {t t' t'' : DrmCommitThread Property Value Plane Buffer}
variable {commits : List (DrmCommitRef Property Value Plane Buffer)}
variable {runs : List (DrmCommitRef Property Value Plane Buffer × List (DrmCommitRef Property Value Plane Buffer))}

-- The ids of the commits that belong to the thread.
def ids (t : DrmCommitThread Property Value Plane Buffer) : List Nat :=
  (t.commits ++ t.commitsToDelete).map (·.id)

-- No commit is lost or listed twice. There may be new ones.
def Conserves (owned owned' : List Nat) (next next' : Nat) : Prop :=
  ∃ n, next' = next + n ∧ owned'.Perm (owned ++ List.range' next n)

theorem Conserves.of_perm {owned owned' : List Nat} {next : Nat} (h : owned'.Perm owned) :
    Conserves owned owned' next next :=
  ⟨0, rfl, by simpa using h⟩

theorem Conserves.trans {owned owned' owned'' : List Nat} {next next' next'' : Nat}
    (h : Conserves owned owned' next next') (h' : Conserves owned' owned'' next' next'') :
    Conserves owned owned'' next next'' := by
  have ⟨n, hn, hp⟩ := h
  have ⟨n', hn', hp'⟩ := h'
  refine ⟨n + n', by rw [hn', hn, Nat.add_assoc], hp'.trans ?_⟩
  rw [hn, ← List.range'_append_1, ← List.append_assoc]
  exact hp.append_right _

def runMembers (run : DrmCommitRef Property Value Plane Buffer × List (DrmCommitRef Property Value Plane Buffer)) :
    List (DrmCommitRef Property Value Plane Buffer) :=
  run.1 :: run.2

theorem mergeRuns_spec (t : DrmCommitThread Property Value Plane Buffer)
    (runs : List (DrmCommitRef Property Value Plane Buffer × List (DrmCommitRef Property Value Plane Buffer))) :
    (∃ merged, (t.mergeRuns runs).commits = t.commits ++ merged ∧ Groups (runs.flatMap runMembers) merged) ∧
      Conserves (t.ids ++ (runs.flatMap runMembers).map (·.id)) (t.mergeRuns runs).ids t.nextId
        (t.mergeRuns runs).nextId := by
  induction runs generalizing t
  case nil => exact ⟨⟨[], by simp [mergeRuns], .refl⟩, .of_perm (by simp [mergeRuns])⟩
  case cons run runs ih =>
    have ⟨start, run⟩ := run
    cases run
    case nil =>
      have ⟨⟨merged, hc, hg⟩, hp⟩ := ih { t with commits := t.commits ++ [start] }
      refine ⟨⟨start :: merged, ?_, ?_⟩, ?_⟩
      case refine_1 => rw [mergeRuns, hc, List.append_assoc]; rfl
      case refine_2 =>
        have hstart : Groups [start] [start] := .refl
        exact hstart.append hg
      case refine_3 =>
        refine Conserves.trans (.of_perm (List.perm_iff_count.mpr fun id => ?_)) hp
        simp [ids, runMembers, List.count_cons]
        omega
    case cons commit run =>
      have ⟨⟨merged, hc, hg⟩, hp⟩ := ih
        { t with
          commits := t.commits ++ [⟨t.nextId, mergeCommits start (commit :: run)⟩]
          commitsToDelete := t.commitsToDelete ++ start :: commit :: run
          nextId := t.nextId + 1 }
      refine ⟨⟨⟨t.nextId, mergeCommits start (commit :: run)⟩ :: merged, ?_, ?_⟩, ?_⟩
      case refine_1 =>
        rw [mergeRuns]
        exact hc.trans (List.append_assoc ..)
      case refine_2 =>
        have hgroup : Groups (start :: commit :: run) [⟨t.nextId, mergeCommits start (commit :: run)⟩] :=
          ⟨[⟨_, start, commit :: run, rfl⟩], rfl, List.append_nil _⟩
        exact hgroup.append hg
      case refine_3 =>
        refine Conserves.trans ⟨1, rfl, List.perm_iff_count.mpr fun id => ?_⟩ hp
        simp [ids, runMembers, List.count_cons]
        omega

omit [DecidableEq Property] [DecidableEq Plane] in
theorem readyRuns_members : (readyRuns isReadable pageflipTarget commits).flatMap runMembers = commits := by
  cases commits
  case nil => rfl
  case cons front commits =>
    rw [readyRuns]
    split
    case isTrue => simp [runMembers, List.flatMap_map, List.takeWhile_append_dropWhile]
    case isFalse => simp [runMembers, List.flatMap_map]

omit [DecidableEq Property] in
theorem samePlaneRun_members (start : DrmCommitRef Property Value Plane Buffer)
    (run : List (DrmCommitRef Property Value Plane Buffer)) :
    (samePlaneRun isReadable pageflipTarget start run commits).flatMap runMembers = start :: run ++ commits := by
  induction commits generalizing start run
  case nil => simp [samePlaneRun, runMembers]
  case cons commit commits ih =>
    rw [samePlaneRun]
    split
    case isTrue => rw [List.flatMap_cons, ih, runMembers]; simp
    case isFalse => rw [ih]; simp

omit [DecidableEq Property] in
theorem samePlaneRuns_members : (samePlaneRuns isReadable pageflipTarget commits).flatMap runMembers = commits := by
  cases commits
  case nil => rfl
  case cons start commits => rw [samePlaneRuns, samePlaneRun_members]; simp

-- What a phase that merges neighbours does to the thread.
structure Merges (t t' : DrmCommitThread Property Value Plane Buffer) : Prop where
  groups    : Groups t.commits t'.commits
  conserves : Conserves t.ids t'.ids t.nextId t'.nextId

theorem Merges.trans (h : Merges t t') (h' : Merges t' t'') : Merges t t'' where
  groups    := h.groups.trans h'.groups
  conserves := h.conserves.trans h'.conserves

theorem mergeRuns_merges (h : runs.flatMap runMembers = t.commits) :
    Merges t (mergeRuns { t with commits := [] } runs) := by
  have ⟨⟨merged, hc, hg⟩, hp⟩ := mergeRuns_spec { t with commits := [] } runs
  refine ⟨?_, Conserves.trans (.of_perm (List.perm_iff_count.mpr fun id => ?_)) hp⟩
  case refine_1 => rwa [hc, List.nil_append, ← h]
  case refine_2 =>
    rw [h]
    simp [ids]
    omega

theorem mergeFront_merges (isReadable : Buffer → Bool) (pageflipTarget : Int) :
    Merges t (t.mergeFront isReadable pageflipTarget) :=
  mergeRuns_merges readyRuns_members

theorem mergeSamePlanes_merges (isReadable : Buffer → Bool) (pageflipTarget : Int) :
    Merges t (t.mergeSamePlanes isReadable pageflipTarget) :=
  mergeRuns_merges samePlaneRuns_members

end DrmCommitThread
end KWin

namespace KWin
namespace DrmCommitThread

open LastSome MergedCommit

variable {Property Value Plane Buffer : Type}
variable {isReadable : Buffer → Bool} {test : Nat → Nat → Bool} {pageflipTarget : Int}
variable {t t' : DrmCommitThread Property Value Plane Buffer}
variable {front : Option (DrmCommitRef Property Value Plane Buffer)} {commit : DrmCommitRef Property Value Plane Buffer}
variable {before commits : List (DrmCommitRef Property Value Plane Buffer)} {p : Nat → Bool}

theorem deleteDuplicate_conserves (t : DrmCommitThread Property Value Plane Buffer)
    (duplicate : Option (DrmAtomicCommit Property Value Plane Buffer)) (kept : List Nat) :
    Conserves (kept ++ t.commitsToDelete.map (·.id))
      (kept ++ (t.deleteDuplicate duplicate).commitsToDelete.map (·.id)) t.nextId
      (t.deleteDuplicate duplicate).nextId := by
  cases duplicate
  case none => exact .of_perm .rfl
  case some duplicate => exact ⟨1, rfl, by simp [deleteDuplicate, allocate]⟩

-- The commits behind those that have been decided about, and whether they are moved.
def MovableBehind (isReadable : Buffer → Bool) (pageflipTarget : Int) (p : Nat → Bool)
    (before commits : List (DrmCommitRef Property Value Plane Buffer)) : Prop :=
  ∀ pre commit after, commits = pre ++ commit :: after → p commit.id = true →
    commit.isReadyFor isReadable pageflipTarget = true ∧
      ∀ other ∈ before ++ pre, p other.id = false → Disjoint commit.modifiedPlanes other.modifiedPlanes

theorem MovableBehind.tail (h : MovableBehind isReadable pageflipTarget p before (commit :: commits)) :
    MovableBehind isReadable pageflipTarget p (before ++ [commit]) commits := by
  intro pre other after hc hp
  have ⟨hr, hd⟩ := h (commit :: pre) other after (by rw [hc]; rfl) hp
  exact ⟨hr, by simpa using hd⟩

-- A commit that stays is not moved.
theorem MovableBehind.kept (h : MovableBehind isReadable pageflipTarget p (before ++ [commit]) commits)
    (hp : p commit.id = false) : MovableBehind isReadable pageflipTarget p before (commit :: commits) := by
  intro pre other after hc hpo
  cases pre
  case nil =>
    cases hc
    exact nomatch hp.symm.trans hpo
  case cons first pre =>
    cases hc
    have ⟨hr, hd⟩ := h pre other after rfl hpo
    exact ⟨hr, by simpa using hd⟩

variable [DecidableEq Property] [DecidableEq Plane]

-- The commits that can be moved to the front together: none of them overtakes one that stays and has a plane in
-- common with it.
def Movable (isReadable : Buffer → Bool) (pageflipTarget : Int) (p : Nat → Bool)
    (commits : List (DrmCommitRef Property Value Plane Buffer)) : Prop :=
  ∀ before commit after, commits = before ++ commit :: after → p commit.id = true →
    before ≠ [] ∧ commit.isReadyFor isReadable pageflipTarget = true ∧
      ∀ other ∈ before, p other.id = false → Disjoint commit.modifiedPlanes other.modifiedPlanes

-- The commits that are behind the front when the order is changed.
def overtakable (isReadable : Buffer → Bool) (pageflipTarget : Int) :
    List (DrmCommitRef Property Value Plane Buffer) → List (DrmCommitRef Property Value Plane Buffer)
  | [] => []
  | first :: commits => if first.isReadyFor isReadable pageflipTarget then commits else first :: commits

omit [DecidableEq Property] in
theorem skipping_eq_false :
    skipping before commit = false ↔
      ∀ other ∈ before, Disjoint commit.modifiedPlanes other.modifiedPlanes := by
  simp only [skipping, List.any_eq_false, decide_eq_true_eq, not_exists, not_and, Finset.disjoint_left]

theorem testOthers_const {id i : Nat} {duplicate : DrmAtomicCommit Property Value Plane Buffer} (hp : p id = true) :
    (testOthers (fun id _ => p id) id i duplicate commits).2 = true := by
  induction commits generalizing i duplicate
  case nil => rfl
  case cons other others ih => rw [testOthers, if_pos hp, ih]

-- The kernel can accept just the commits that are to be moved.
theorem testOrder_const : (testOrder (fun id _ => p id) front commit commits).2 = p commit.id := by
  cases hp : p commit.id
  case false => cases front <;> simp [testOrder, hp]
  case true => cases front <;> simp [testOrder, hp, testOthers_const hp]

-- The commit is merged into the front, and its object is deleted.
theorem moveToFront_spec (t : DrmCommitThread Property Value Plane Buffer)
    (front : Option (DrmCommitRef Property Value Plane Buffer)) (commit : DrmCommitRef Property Value Plane Buffer)
    (kept : List Nat) :
    Groups (front.toList ++ [commit]) [(t.moveToFront front commit).1] ∧
      Conserves ((front.toList ++ [commit]).map (·.id) ++ kept ++ t.commitsToDelete.map (·.id))
        ((t.moveToFront front commit).1.id :: kept ++ (t.moveToFront front commit).2.commitsToDelete.map (·.id))
        t.nextId (t.moveToFront front commit).2.nextId := by
  cases front
  case none =>
    refine ⟨⟨[⟨⟨t.nextId, commit.commit⟩, commit, [], rfl⟩], rfl, rfl⟩, 1, rfl, List.perm_iff_count.mpr fun id => ?_⟩
    simp [moveToFront, allocate, List.count_cons]
    omega
  case some front =>
    refine ⟨⟨[⟨_, front, [commit], rfl⟩], rfl, rfl⟩, 0, rfl, List.perm_iff_count.mpr fun id => ?_⟩
    simp [moveToFront, List.count_cons]
    omega

-- What becomes of a queue with the given front, when the first commits stay.
structure Reordered (isReadable : Buffer → Bool) (pageflipTarget : Int)
    (t : DrmCommitThread Property Value Plane Buffer) (front : Option (DrmCommitRef Property Value Plane Buffer))
    (before commits : List (DrmCommitRef Property Value Plane Buffer))
    (t' : DrmCommitThread Property Value Plane Buffer) : Prop where
  moves : ∃ p : Nat → Bool, (∀ ref ∈ before, p ref.id = false) ∧
    MovableBehind isReadable pageflipTarget p before commits ∧
      Groups (front.toList ++ commits.filter (p ·.id) ++ (before ++ commits.filter (!p ·.id))) t'.commits
  conserves : Conserves ((front.toList ++ before ++ commits).map (·.id) ++ t.commitsToDelete.map (·.id)) t'.ids
    t.nextId t'.nextId

theorem Reordered.keep (h : Reordered isReadable pageflipTarget t front (before ++ [commit]) commits t') :
    Reordered isReadable pageflipTarget t front before (commit :: commits) t' := by
  have ⟨p, hb, hm, hg⟩ := h.moves
  have hp : p commit.id = false := hb commit (by simp)
  refine ⟨⟨p, fun ref hr => hb ref (by simp [hr]), hm.kept hp, ?_⟩, ?_⟩
  case refine_1 =>
    rw [List.filter_cons_of_neg (by simp [hp]), List.filter_cons_of_pos (by simp [hp])]
    rwa [List.append_assoc before, List.singleton_append] at hg
  case refine_2 => simpa using h.conserves

theorem Reordered.deleteDuplicate {duplicate : Option (DrmAtomicCommit Property Value Plane Buffer)}
    (h : Reordered isReadable pageflipTarget (t.deleteDuplicate duplicate) front before commits t') :
    Reordered isReadable pageflipTarget t front before commits t' where
  moves     := h.moves
  conserves := (t.deleteDuplicate_conserves duplicate _).trans h.conserves

theorem Reordered.move (hn : ((before ++ commit :: commits).map (·.id)).Nodup)
    (hr : commit.isReadyFor isReadable pageflipTarget = true) (hs : skipping before commit = false)
    (h : Reordered isReadable pageflipTarget (t.moveToFront front commit).2 (t.moveToFront front commit).1 before
      commits t') : Reordered isReadable pageflipTarget t front before (commit :: commits) t' := by
  have ⟨p, hb, hm, hg⟩ := h.moves
  have ⟨hfront, hcons⟩ := t.moveToFront_spec front commit ((before ++ commits).map (·.id))
  have hid : ∀ ref ∈ before ++ commits, ref.id ≠ commit.id := by
    intro ref href heq
    rw [List.map_append, List.map_cons, List.nodup_middle, List.nodup_cons, ← List.map_append] at hn
    exact hn.1 (heq ▸ List.mem_map_of_mem href)
  -- The ids are distinct, so the other commits are decided about as before.
  have hsame : ∀ ref ∈ before ++ commits, (ref.id == commit.id || p ref.id) = p ref.id := by
    intro ref href
    rw [beq_false_of_ne (hid ref href), Bool.false_or]
  refine ⟨⟨fun id => id == commit.id || p id, ?_, ?_, ?_⟩, ?_⟩
  case refine_1 => exact fun ref href => (hsame ref (List.mem_append_left _ href)).trans (hb ref href)
  case refine_2 =>
    intro pre other after hc hp
    cases pre
    case nil =>
      cases hc
      refine ⟨hr, fun other ho _ => skipping_eq_false.mp hs other (by simpa using ho)⟩
    case cons first pre =>
      cases hc
      have ⟨hready, hd⟩ := hm pre other after rfl ((hsame other (by simp)).symm.trans hp)
      refine ⟨hready, fun other' ho' hp' => ?_⟩
      cases List.mem_append.mp ho'
      case inl ho' => exact hd other' (List.mem_append_left _ ho') (hb other' ho')
      case inr ho' =>
        cases List.mem_cons.mp ho'
        case inl heq => simp [heq] at hp'
        case inr ho' => exact hd other' (List.mem_append_right _ ho') ((hsame other' (by simp [ho'])).symm.trans hp')
  case refine_3 =>
    have hf : commits.filter (fun ref => ref.id == commit.id || p ref.id) = commits.filter (p ·.id) :=
      List.filter_congr fun ref href => hsame ref (List.mem_append_right _ href)
    have hf' : commits.filter (fun ref => !(ref.id == commit.id || p ref.id)) = commits.filter (!p ·.id) :=
      List.filter_congr fun ref href => congrArg _ (hsame ref (List.mem_append_right _ href))
    rw [List.filter_cons_of_pos (by simp), List.filter_cons_of_neg (by simp), hf, hf']
    refine Groups.trans ?_ hg
    have hrest : Groups (commits.filter (p ·.id) ++ (before ++ commits.filter (!p ·.id))) _ := .refl
    simpa using hfront.append hrest
  case refine_4 =>
    refine Conserves.trans (Conserves.trans (.of_perm (List.perm_iff_count.mpr fun id => ?_)) hcons) ?_
    case refine_1 => simp [List.count_cons]; omega
    case refine_2 => simpa using h.conserves

theorem moveReady_spec (isReadable : Buffer → Bool) (test : Nat → Nat → Bool) (pageflipTarget : Int)
    (t : DrmCommitThread Property Value Plane Buffer)
    (front : Option (DrmCommitRef Property Value Plane Buffer))
    (before commits : List (DrmCommitRef Property Value Plane Buffer))
    (hn : ((before ++ commits).map (·.id)).Nodup) :
    Reordered isReadable pageflipTarget t front before commits
      (t.moveReady isReadable test pageflipTarget front before commits) := by
  induction commits generalizing t front before
  case nil =>
    refine ⟨⟨fun _ => false, by simp, by intro pre; simp, ?_⟩, .of_perm ?_⟩
    case refine_1 => simpa [moveReady] using Groups.refl
    case refine_2 => simp [moveReady, ids]
  case cons commit commits ih =>
    have hn' : ((before ++ [commit] ++ commits).map (·.id)).Nodup := by simpa using hn
    have hn'' : ((before ++ commits).map (·.id)).Nodup := by
      rw [List.map_append, List.map_cons, List.nodup_middle, List.nodup_cons, ← List.map_append] at hn
      exact hn.2
    rw [moveReady]
    split
    case isTrue => exact (ih _ _ _ hn').keep
    case isFalse hm =>
      have ⟨hr, hs⟩ : commit.isReadyFor isReadable pageflipTarget = true ∧ skipping before commit = false := by
        simpa using hm
      dsimp only
      split
      case isTrue => exact (Reordered.move hn hr hs (ih _ _ _ hn'')).deleteDuplicate
      case isFalse => exact (ih _ _ _ hn').keep.deleteDuplicate

theorem moveReady_movable (t : DrmCommitThread Property Value Plane Buffer)
    (front : Option (DrmCommitRef Property Value Plane Buffer))
    (before commits : List (DrmCommitRef Property Value Plane Buffer)) (hb : ∀ ref ∈ before, p ref.id = false)
    (hm : MovableBehind isReadable pageflipTarget p before commits) :
    Groups (front.toList ++ commits.filter (p ·.id) ++ (before ++ commits.filter (!p ·.id)))
      (t.moveReady isReadable (fun id _ => p id) pageflipTarget front before commits).commits := by
  induction commits generalizing t front before
  case nil => simpa [moveReady] using Groups.refl
  case cons commit commits ih =>
    have hstay (t : DrmCommitThread Property Value Plane Buffer) (hp : p commit.id = false) :=
      ih t front (before ++ [commit]) 
        (List.forall_mem_append.mpr ⟨hb, by simp [hp]⟩) hm.tail
    rw [moveReady]
    split
    case isTrue hs =>
      have hp : p commit.id = false := by
        apply Bool.eq_false_iff.mpr
        intro hp
        have ⟨hr, hd⟩ := hm [] commit commits rfl hp
        have hskip : skipping before commit = false :=
          skipping_eq_false.mpr fun other ho => hd other (by simpa using ho) (hb other ho)
        simp [hr, hskip] at hs
      rw [List.filter_cons_of_neg (by simp [hp]), List.filter_cons_of_pos (by simp [hp])]
      simpa using hstay t hp
    case isFalse =>
      dsimp only
      rw [testOrder_const]
      cases hp : p commit.id
      case false =>
        rw [List.filter_cons_of_neg (by simp [hp]), List.filter_cons_of_pos (by simp [hp])]
        simpa using hstay _ hp
      case true =>
        rw [List.filter_cons_of_pos (by simp [hp]), List.filter_cons_of_neg (by simp [hp]), if_pos rfl]
        have ⟨hfront, _⟩ := moveToFront_spec
          (t.deleteDuplicate (testOrder (fun id _ => p id) front commit (before ++ commits)).1) front commit []
        have hrest : Groups (commits.filter (p ·.id) ++ (before ++ commits.filter (!p ·.id))) _ := .refl
        refine Groups.trans (by simpa using hfront.append hrest) (ih _ _ _ hb ?_)
        intro pre other after hc hpo
        have ⟨hr, hd⟩ := hm (commit :: pre) other after (by rw [hc]; rfl) hpo
        refine ⟨hr, fun other' ho' => hd other' ?_⟩
        cases List.mem_append.mp ho'
        case inl ho' => exact List.mem_append_left _ ho'
        case inr ho' => exact List.mem_append_right _ (List.mem_cons_of_mem _ ho')

end DrmCommitThread
end KWin
