import PlasmaModel.Drm.Theorems.Merge

namespace KWin
namespace DrmCommitThread

open LastSome MergedCommit

variable {Property Value Plane Buffer : Type}
variable {isReadable : Buffer → Bool} {test : Nat → Nat → Bool} {pageflipTarget : Int}
variable {t t' : DrmCommitThread Property Value Plane Buffer}
variable {queue before after : List (DrmCommitRef Property Value Plane Buffer)} {p : Nat → Bool}

-- The commit that becomes the front before the order is changed.
def ahead (isReadable : Buffer → Bool) (pageflipTarget : Int) (queue : List (DrmCommitRef Property Value Plane Buffer)) :
    List (DrmCommitRef Property Value Plane Buffer) :=
  queue.take (queue.length - (overtakable isReadable pageflipTarget queue).length)

theorem ahead_append (isReadable : Buffer → Bool) (pageflipTarget : Int)
    (queue : List (DrmCommitRef Property Value Plane Buffer)) : ahead isReadable pageflipTarget queue ++ overtakable isReadable pageflipTarget queue = queue := by
  cases queue
  case nil => rfl
  case cons first commits =>
    rw [ahead, overtakable]
    split <;> simp

theorem movable_cons {first : DrmCommitRef Property Value Plane Buffer} :
    Movable isReadable pageflipTarget p (first :: queue) ↔
      p first.id = false ∧ MovableBehind isReadable pageflipTarget p [first] queue := by
  constructor
  case mp =>
    intro h
    refine ⟨Bool.eq_false_iff.mpr fun hp => (h [] first queue rfl hp).1 rfl, ?_⟩
    intro pre commit after hq hp
    exact (h (first :: pre) commit after (by rw [hq]; rfl) hp).2
  case mpr =>
    intro ⟨hf, h⟩ before commit after hq hp
    cases before
    case nil =>
      cases hq
      exact nomatch hf.symm.trans hp
    case cons first' before =>
      cases hq
      exact ⟨nofun, h before commit after rfl hp⟩

theorem moved_cons {first : DrmCommitRef Property Value Plane Buffer} (hp : p first.id = false) :
    moved (p ·.id) (first :: queue) = queue.filter (p ·.id) ++ ([first] ++ queue.filter (!p ·.id)) := by
  rw [moved, List.filter_cons_of_neg (by simp [hp]), List.filter_cons_of_pos (by simp [hp])]
  rfl

theorem Movable.moved_eq (h : Movable isReadable pageflipTarget p queue) (hl : queue.length ≤ 1) :
    moved (p ·.id) queue = queue := by
  cases queue
  case nil => rfl
  case cons first queue =>
    have hnil : queue = [] := List.length_eq_zero_iff.mp (Nat.le_zero.mp (Nat.le_of_succ_le_succ hl))
    rw [moved_cons (movable_cons.mp h).1, hnil]
    rfl

theorem overtakable_length : (overtakable isReadable pageflipTarget queue).length ≤ queue.length := by
  cases queue
  case nil => exact Nat.le_refl _
  case cons first commits =>
    rw [overtakable]
    split
    case isTrue => exact Nat.le_succ _
    case isFalse => exact Nat.le_refl _

-- The ids of the commits a thread owns are distinct and have all been handed out.
structure Valid (t : DrmCommitThread Property Value Plane Buffer) : Prop where
  nodup : t.ids.Nodup
  lt    : ∀ id ∈ t.ids, id < t.nextId

theorem Conserves.nodup (h : t.Valid) (hc : Conserves t.ids t'.ids t.nextId t'.nextId) : t'.ids.Nodup := by
  have ⟨n, _, hp⟩ := hc
  refine hp.nodup_iff.mpr (List.nodup_append'.mpr ⟨h.nodup, List.nodup_range' .., ?_⟩)
  intro id hid hr
  exact absurd (List.mem_range'_1.mp hr).1 (Nat.not_le.mpr (h.lt id hid))

theorem Conserves.count (h : t.Valid) (hc : Conserves t.ids t'.ids t.nextId t'.nextId)
    {ref : DrmCommitRef Property Value Plane Buffer} (hm : ref ∈ t.commits) :
    (t'.commits.map (·.id)).count ref.id + (t'.commitsToDelete.map (·.id)).count ref.id = 1 := by
  have hd := hc.nodup h
  have ⟨n, _, hp⟩ := hc
  have hid : ref.id ∈ t'.ids :=
    hp.mem_iff.mpr (List.mem_append_left _ (List.mem_map_of_mem (List.mem_append_left _ hm)))
  have hcount := List.count_eq_one_of_mem hd hid
  rwa [ids, List.map_append, List.count_append] at hcount

variable [DecidableEq Property] [DecidableEq Plane]

-- The queue after the runs of ready commits have been merged.
def mergeNeighbours (isReadable : Buffer → Bool) (pageflipTarget : Int)
    (t : DrmCommitThread Property Value Plane Buffer) : DrmCommitThread Property Value Plane Buffer :=
  if t.commits.length ≤ 1 then
    t
  else
    (t.mergeFront isReadable pageflipTarget).mergeSamePlanes isReadable pageflipTarget

theorem mergeNeighbours_merges (isReadable : Buffer → Bool) (pageflipTarget : Int)
    (t : DrmCommitThread Property Value Plane Buffer) : Merges t (t.mergeNeighbours isReadable pageflipTarget) := by
  rw [mergeNeighbours]
  split
  case isTrue => exact ⟨.refl, .of_perm .rfl⟩
  case isFalse => exact (mergeFront_merges ..).trans (mergeSamePlanes_merges ..)

theorem Merges.ne_nil (h : Merges t t') (ht : t.commits ≠ []) : t'.commits ≠ [] := by
  have ⟨groups, hr, hm⟩ := h.groups
  intro hnil
  rw [hnil, List.map_eq_nil_iff] at hr
  exact ht (by rw [← hm, hr]; rfl)

theorem optimizeCommits_eq (t : DrmCommitThread Property Value Plane Buffer) :
    t.optimizeCommits isReadable test pageflipTarget =
      if (t.mergeNeighbours isReadable pageflipTarget).commits.length ≤ 1 then
        t.mergeNeighbours isReadable pageflipTarget
      else
        (t.mergeNeighbours isReadable pageflipTarget).reorder isReadable test pageflipTarget := by
  rw [optimizeCommits, mergeNeighbours]
  split
  case isTrue => rfl
  case isFalse h =>
    have hm := (mergeFront_merges isReadable pageflipTarget (t := t)).trans
      (mergeSamePlanes_merges isReadable pageflipTarget)
    have hne := List.length_pos_iff.mpr (hm.ne_nil fun hnil => h (by simp [hnil]))
    dsimp only
    congr 1
    exact propext ⟨Nat.le_of_eq, fun hle => Nat.le_antisymm hle hne⟩

-- What becomes of a queue when some commits are moved to its front.
structure Optimized (isReadable : Buffer → Bool) (pageflipTarget : Int) (p : Nat → Bool)
    (t t' : DrmCommitThread Property Value Plane Buffer) : Prop where
  movable   : Movable isReadable pageflipTarget p (overtakable isReadable pageflipTarget t.commits)
  groups    : Groups (ahead isReadable pageflipTarget t.commits ++
    moved (p ·.id) (overtakable isReadable pageflipTarget t.commits)) t'.commits

theorem reorder_eq {first second : DrmCommitRef Property Value Plane Buffer} (hc : t.commits = first :: second :: queue) :
    t.reorder isReadable test pageflipTarget =
      if first.isReadyFor isReadable pageflipTarget then
        moveReady isReadable test pageflipTarget
          { t with
            commits := second :: queue
            commitsToDelete := t.commitsToDelete ++ [first]
            nextId := t.nextId + 1 }
          (some ⟨t.nextId, first.commit⟩) [second] queue
      else
        t.moveReady isReadable test pageflipTarget none [first] (second :: queue) := by
  rw [reorder, takeFront]
  cases hr : first.isReadyFor isReadable pageflipTarget <;> simp [hc, hr, allocate]

theorem reorder_spec (isReadable : Buffer → Bool) (test : Nat → Nat → Bool) (pageflipTarget : Int)
    {first second : DrmCommitRef Property Value Plane Buffer}
    (hc : t.commits = first :: second :: queue) (hn : (t.commits.map (·.id)).Nodup) :
    (∃ p, Optimized isReadable pageflipTarget p t (t.reorder isReadable test pageflipTarget)) ∧
      Conserves t.ids (t.reorder isReadable test pageflipTarget).ids t.nextId
        (t.reorder isReadable test pageflipTarget).nextId := by
  rw [hc] at hn
  rw [reorder_eq hc]
  cases hr : first.isReadyFor isReadable pageflipTarget
  case false =>
    rw [if_neg Bool.false_ne_true]
    obtain ⟨⟨p, hb, hm, hg⟩, hcons⟩ :=
      moveReady_spec isReadable test pageflipTarget t none [first] (second :: queue) hn
    have hp : p first.id = false := hb first (by simp)
    refine ⟨⟨p, ?_, ?_⟩, ?_⟩
    case refine_1 =>
      rw [hc, overtakable, hr, if_neg Bool.false_ne_true]
      exact movable_cons.mpr ⟨hp, hm⟩
    case refine_2 =>
      rw [ahead, hc, overtakable, hr, if_neg Bool.false_ne_true, Nat.sub_self, List.take_zero, moved_cons hp]
      exact hg
    case refine_3 => simpa [ids, hc] using hcons
  case true =>
    rw [if_pos rfl]
    obtain ⟨⟨p, hb, hm, hg⟩, hcons⟩ := moveReady_spec isReadable test pageflipTarget
      { t with commits := second :: queue, commitsToDelete := t.commitsToDelete ++ [first], nextId := t.nextId + 1 }
      (some ⟨t.nextId, first.commit⟩) [second] queue (List.nodup_cons.mp hn).2
    have hp : p second.id = false := hb second (by simp)
    refine ⟨⟨p, ?_, ?_⟩, ?_⟩
    case refine_1 =>
      rw [hc, overtakable, hr, if_pos rfl]
      exact movable_cons.mpr ⟨hp, hm⟩
    case refine_2 =>
      have hfirst : Groups [first] [⟨t.nextId, first.commit⟩] := ⟨[⟨⟨t.nextId, first.commit⟩, first, [], rfl⟩], rfl, rfl⟩
      rw [ahead, hc, overtakable, hr, if_pos rfl, moved_cons hp]
      refine Groups.trans ?_ hg
      rw [List.append_assoc]
      simpa using hfirst.append Groups.refl
    case refine_3 =>
      refine Conserves.trans ⟨1, rfl, List.perm_iff_count.mpr fun id => ?_⟩ hcons
      simp [ids, hc, List.count_cons]
      omega

theorem reorder_movable {first second : DrmCommitRef Property Value Plane Buffer}
    (hc : t.commits = first :: second :: queue)
    (hm : Movable isReadable pageflipTarget p (overtakable isReadable pageflipTarget t.commits)) :
    Optimized isReadable pageflipTarget p t (t.reorder isReadable (fun id _ => p id) pageflipTarget) := by
  refine ⟨hm, ?_⟩
  rw [reorder_eq hc, ahead]
  rw [hc, overtakable] at hm ⊢
  cases hr : first.isReadyFor isReadable pageflipTarget
  case false =>
    rw [hr, if_neg Bool.false_ne_true] at hm
    have ⟨hp, hm⟩ := movable_cons.mp hm
    rw [if_neg Bool.false_ne_true, if_neg Bool.false_ne_true, Nat.sub_self, List.take_zero, moved_cons hp]
    exact moveReady_movable t none [first] (second :: queue) (by simpa using hp) hm
  case true =>
    rw [hr, if_pos rfl] at hm
    have ⟨hp, hm⟩ := movable_cons.mp hm
    have hfirst : Groups [first] [⟨t.nextId, first.commit⟩] := ⟨[⟨⟨t.nextId, first.commit⟩, first, [], rfl⟩], rfl, rfl⟩
    rw [if_pos rfl, if_pos rfl, moved_cons hp]
    refine Groups.trans ?_ (moveReady_movable _ (some ⟨t.nextId, first.commit⟩) [second] queue (by simpa using hp) hm)
    rw [List.append_assoc]
    simpa using hfirst.append Groups.refl

theorem Optimized.refl (hm : Movable isReadable pageflipTarget p (overtakable isReadable pageflipTarget t.commits))
    (hl : t.commits.length ≤ 1) : Optimized isReadable pageflipTarget p t t := by
  refine ⟨hm, ?_⟩
  rw [hm.moved_eq (Nat.le_trans overtakable_length hl), ahead_append ..]
  exact .refl

theorem optimizeCommits_spec (h : t.Valid) (isReadable : Buffer → Bool) (test : Nat → Nat → Bool)
    (pageflipTarget : Int) :
    (∃ p, Optimized isReadable pageflipTarget p (t.mergeNeighbours isReadable pageflipTarget)
        (t.optimizeCommits isReadable test pageflipTarget)) ∧
      Conserves t.ids (t.optimizeCommits isReadable test pageflipTarget).ids t.nextId
        (t.optimizeCommits isReadable test pageflipTarget).nextId := by
  have hm := mergeNeighbours_merges isReadable pageflipTarget t
  have hd := hm.conserves.nodup h
  rw [optimizeCommits_eq]
  split
  case isTrue hl => exact ⟨⟨fun _ => false, .refl (fun _ _ _ _ hp => by cases hp) hl⟩, hm.conserves⟩
  case isFalse hl =>
    rcases hc : (t.mergeNeighbours isReadable pageflipTarget).commits with _ | ⟨first, _ | ⟨second, queue⟩⟩
    case nil => simp [hc] at hl
    case cons.nil => simp [hc] at hl
    case cons.cons =>
      have hn : ((t.mergeNeighbours isReadable pageflipTarget).commits.map (·.id)).Nodup :=
        hd.sublist (by rw [ids, List.map_append]; exact List.sublist_append_left ..)
      obtain ⟨hp, hcons⟩ := reorder_spec isReadable test pageflipTarget hc hn
      exact ⟨hp, hm.conserves.trans hcons⟩

-- The commits that stay do not set a property last that the queue as a whole leaves at another value.
structure Agrees (p : Nat → Bool) (queue : List (DrmCommitRef Property Value Plane Buffer)) : Prop where
  properties : ∀ property, ∀ value ∈ lastSome (fun ref => ref.commit.properties.lookup property)
    (queue.filter (!p ·.id)), lastSome (fun ref => ref.commit.properties.lookup property) queue = some value
  vrr : ∀ vrr ∈ lastSome (fun ref => ref.commit.vrr) (queue.filter (!p ·.id)),
    lastSome (fun ref => ref.commit.vrr) queue = some vrr

omit [DecidableEq Property] in
theorem Movable.buffers (h : Movable isReadable pageflipTarget p queue) (plane : Plane) :
    lastSome (fun ref => ref.commit.buffers.lookup plane) (moved (p ·.id) queue) =
      lastSome (fun ref => ref.commit.buffers.lookup plane) queue := by
  apply lastSome_moved_of_apart
  intro before commit after hq hp hplane other ho hpo
  have ⟨_, _, hd⟩ := h before commit after hq hp
  have hn := Finset.disjoint_left.mp (hd other ho hpo) (DrmAtomicCommit.mem_modifiedPlanes.mpr hplane)
  exact not_not.mp fun h => hn (DrmAtomicCommit.mem_modifiedPlanes.mpr h)

theorem Optimized.update_iff (h : Optimized isReadable pageflipTarget p t t') :
    DrmUpdate.ofQueue t'.commits = DrmUpdate.ofQueue t.commits ↔
      Agrees p (overtakable isReadable pageflipTarget t.commits) := by
  have hperm := (moved_perm (p ·.id) (overtakable isReadable pageflipTarget t.commits))
  have hqueue : DrmUpdate.ofQueue t.commits = DrmUpdate.ofQueue (ahead isReadable pageflipTarget t.commits ++
      overtakable isReadable pageflipTarget t.commits) := congrArg _ (ahead_append ..).symm
  rw [h.groups.update, hqueue, DrmUpdate.ofQueue_inj]
  simp only [lastSome_append_left_inj hperm]
  constructor
  case mp => exact fun ⟨hp, _, hv⟩ => ⟨fun property => lastSome_moved.mp (hp property), lastSome_moved.mp hv⟩
  case mpr =>
    exact fun ha => ⟨fun property => lastSome_moved.mpr (ha.properties property), h.movable.buffers,
      lastSome_moved.mpr ha.vrr⟩

-- What the commits of the queue after the optimization have been merged from.
theorem Optimized.origin (hm : Groups before t.commits) (h : Optimized isReadable pageflipTarget p t t') :
    ∃ order, Groups order t'.commits ∧ order.Perm before ∧
      ∀ plane : Plane, order.filter (plane ∈ ·.modifiedPlanes) = before.filter (plane ∈ ·.modifiedPlanes) := by
  obtain ⟨inner, hr, hi⟩ := hm
  rw [← ahead_append isReadable pageflipTarget t.commits] at hr
  obtain ⟨first, rest, hs, hf, hq⟩ := List.map_eq_append_iff.mp hr
  refine ⟨first.flatMap members ++ (moved (p ·.ref.id) rest).flatMap members, ?_, ?_, ?_⟩
  case refine_1 =>
    refine Groups.trans ⟨first ++ moved (p ·.ref.id) rest, ?_, List.flatMap_append⟩ h.groups
    rw [List.map_append, hf, ← hq, moved, moved, List.map_append, List.filter_map, List.filter_map]
    rfl
  case refine_2 =>
    rw [← hi, hs, List.flatMap_append]
    exact ((moved_perm _ rest).flatMap_right members).append_left _
  case refine_3 =>
    intro plane
    have hrest : rest.map ref = overtakable isReadable pageflipTarget t.commits := hq
    rw [← hi, hs, List.flatMap_append, List.filter_append, List.filter_append]
    congr 1
    rw [List.filter_flatMap, List.filter_flatMap]
    apply flatMap_moved_of_apart
    intro pre group post hr hp hplane other ho hpo
    obtain ⟨_, _, hd⟩ := h.movable (pre.map ref) group.ref (post.map ref) (by rw [← hrest, hr]; simp) hp
    have hd := Finset.disjoint_left.mp (hd other.ref (List.mem_map_of_mem ho) hpo)
    obtain ⟨ref, href⟩ := List.exists_mem_of_ne_nil _ hplane
    obtain ⟨href, hmem⟩ := List.mem_filter.mp href
    have hgroup := mem_modifiedPlanes.mpr ⟨ref, href, of_decide_eq_true hmem⟩
    apply List.filter_eq_nil_iff.mpr
    intro ref' href' hmem'
    exact hd hgroup (mem_modifiedPlanes.mpr ⟨ref', href', of_decide_eq_true hmem'⟩)

-- Which commits are moved is up to the kernel. What the queue amounts to always stays if and only if no commits that
-- can be moved set a property to something that a commit they overtake would undo.
theorem optimizeCommits_correct (h : t.Valid) (isReadable : Buffer → Bool) (pageflipTarget : Int) :
    (∀ test : Nat → Nat → Bool,
      (∃ groups : List (MergedCommit Property Value Plane Buffer),
        groups.map ref = (t.optimizeCommits isReadable test pageflipTarget).commits ∧
          (groups.flatMap members).Perm t.commits ∧
          ∀ plane : Plane, (groups.flatMap members).filter (plane ∈ ·.modifiedPlanes) =
            t.commits.filter (plane ∈ ·.modifiedPlanes)) ∧
      ∀ ref ∈ t.commits,
        ((t.optimizeCommits isReadable test pageflipTarget).commits.map (·.id)).count ref.id +
          ((t.optimizeCommits isReadable test pageflipTarget).commitsToDelete.map (·.id)).count ref.id = 1) ∧
    ((∀ test : Nat → Nat → Bool,
        DrmUpdate.ofQueue (t.optimizeCommits isReadable test pageflipTarget).commits =
          DrmUpdate.ofQueue t.commits) ↔
      ∀ p : Nat → Bool,
        Movable isReadable pageflipTarget p
            (overtakable isReadable pageflipTarget (t.mergeNeighbours isReadable pageflipTarget).commits) →
          Agrees p (overtakable isReadable pageflipTarget (t.mergeNeighbours isReadable pageflipTarget).commits)) := by
  have hm := mergeNeighbours_merges isReadable pageflipTarget t
  refine ⟨fun test => ?_, ?_, ?_⟩
  case refine_1 =>
    have ⟨⟨p, ho⟩, hc⟩ := optimizeCommits_spec h isReadable test pageflipTarget
    have ⟨order, ⟨groups, hr, hg⟩, hperm, hplane⟩ := ho.origin hm.groups
    exact ⟨⟨groups, hr, hg ▸ hperm, hg ▸ hplane⟩, fun ref href => hc.count h href⟩
  case refine_2 =>
    intro hsame p hmov
    have hopt : Optimized isReadable pageflipTarget p (t.mergeNeighbours isReadable pageflipTarget)
        (t.optimizeCommits isReadable (fun id _ => p id) pageflipTarget) := by
      rw [optimizeCommits_eq]
      split
      case isTrue hl => exact .refl hmov hl
      case isFalse hl =>
        match hc : (t.mergeNeighbours isReadable pageflipTarget).commits with
        | [] => simp [hc] at hl
        | [_] => simp [hc] at hl
        | first :: second :: queue => exact reorder_movable hc hmov
    exact hopt.update_iff.mp ((hsame _).trans hm.groups.update.symm)
  case refine_3 =>
    intro hagrees test
    have ⟨⟨p, ho⟩, _⟩ := optimizeCommits_spec h isReadable test pageflipTarget
    exact (ho.update_iff.mpr (hagrees p ho.movable)).trans hm.groups.update

-- A frame for the primary plane without adaptive sync and one for the cursor plane with it. The buffer of the first
-- one cannot be read yet.
def adaptiveSyncThread : DrmCommitThread Nat Nat Nat Nat where
  commits := [
    ⟨0, { properties         := Finmap.singleton 0 0
          buffers            := Finmap.singleton 0 (some 0)
          vrr                := some false
          targetPageflipTime := none
          allowedVrrDelay    := none }⟩,
    ⟨1, { properties         := Finmap.singleton 0 1
          buffers            := Finmap.singleton 1 (some 1)
          vrr                := some true
          targetPageflipTime := none
          allowedVrrDelay    := none }⟩]
  nextId  := 2

theorem adaptiveSyncThread_valid : adaptiveSyncThread.Valid :=
  ⟨by decide, by decide⟩

def optimizedThread : DrmCommitThread Nat Nat Nat Nat :=
  adaptiveSyncThread.optimizeCommits (· != 0) (fun _ _ => true) 0

theorem optimizeCommits_correct_moved :
    (optimizedThread.commits.map (·.id)).count 0 + (optimizedThread.commitsToDelete.map (·.id)).count 0 = 1 ∧
      (optimizedThread.commits.map (·.id)).count 1 + (optimizedThread.commitsToDelete.map (·.id)).count 1 = 1 :=
  have h := ((optimizeCommits_correct adaptiveSyncThread_valid (· != 0) 0).1 fun _ _ => true).2
  ⟨h _ (.head _), h _ (.tail _ (.head _))⟩

theorem optimizeCommits_undoes :
    ¬∀ (t : DrmCommitThread Nat Nat Nat Nat) (isReadable : Nat → Bool) (test : Nat → Nat → Bool)
      (pageflipTarget : Int), t.Valid →
        DrmUpdate.ofQueue (t.optimizeCommits isReadable test pageflipTarget).commits = DrmUpdate.ofQueue t.commits := by
  intro h
  have h := congrArg (·.vrr) (h adaptiveSyncThread (· != 0) (fun _ _ => true) 0 adaptiveSyncThread_valid)
  exact absurd h (by decide)

end DrmCommitThread
end KWin
