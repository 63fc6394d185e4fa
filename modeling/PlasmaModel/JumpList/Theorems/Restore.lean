import Mathlib.Data.List.Count
import PlasmaModel.JumpList.Theorems.Sync

namespace JumpList.Files

open Keyed

variable {s s' : Files} {env : Env} {now now' : Int} {storage : StorageFile} {path : String} {recent : List Place}

def folders (s : Files) : List String :=
  s.pinned ++ s.recent.map Place.uri

-- How often the desktop file offers to open the folder.
def offers (s : Files) (path : String) : Nat :=
  ((s.desktop.map DesktopFile.opened).getD []).count (escape path)

structure Valid (s : Files) : Prop where
  length       : s.recent.length ≤ maxRecent
  distinct     : Distinct Place.uri s.recent
  nodup_pinned : s.pinned.Nodup

-- The property that the commands are to keep. A second refresh finds the same storage file.
structure Consistent (s : Files) : Prop extends Valid s where
  unpinned : ∀ item ∈ s.recent, item.uri ∉ s.pinned
  offered  : ∀ path ∈ s.folders, s.offers path = 1
  refresh  : ∀ env now now' storage, (s.refreshDesktop env now storage).refreshDesktop env now' storage =
    s.refreshDesktop env now storage

theorem Valid.initState (h : s.Valid) : s.initState.Valid :=
  { h with }

theorem sync_eq (env : Env) (now : Int) (storage : StorageFile) (s : Files) :
    s.syncRecentFromVSCode env now storage = (env.readStorage s.pinned storage).map fun folders? =>
      folders?.elim s fun folders => s.writeState (merge now s.pinned folders s.recent) := by
  rw [syncRecentFromVSCode]
  cases env.readStorage s.pinned storage with
  | error => rfl
  | ok folders? => cases folders? <;> rfl

-- What a refresh does is decided by what is in the storage file.
theorem refreshDesktop_eq (env : Env) (now : Int) (storage : StorageFile) (s : Files) :
    s.refreshDesktop env now storage =
      match env.readStorage s.pinned storage with
      | .ok (some folders) => (s.writeState (merge now s.pinned folders s.recent)).regenerateDesktop env
      | .ok none => s.initState.regenerateDesktop env
      | .error _ => s.initState := by
  rw [refreshDesktop, sync_eq]
  cases env.readStorage s.pinned storage with
  | error => rfl
  | ok folders? => cases folders? <;> rfl

theorem Valid.refreshDesktop_refreshDesktop (h : s.Valid) :
    (s.refreshDesktop env now storage).refreshDesktop env now' storage = s.refreshDesktop env now storage := by
  rw [refreshDesktop_eq env now]
  cases hr : env.readStorage s.pinned storage with
  | error =>
    have hr : env.readStorage s.initState.pinned storage = .error _ := hr
    rw [refreshDesktop_eq, hr]
    rfl
  | ok folders? =>
    cases folders? with
    | none =>
      have hr : env.readStorage (s.initState.regenerateDesktop env).pinned storage = .ok none := hr
      simp only [refreshDesktop_eq, hr]
      rfl
    | some folders =>
      let merged := (s.writeState (merge now s.pinned folders s.recent)).regenerateDesktop env
      have hr' : env.readStorage merged.pinned storage = .ok (some folders) := hr
      have hm : merge now' merged.pinned folders merged.recent = merged.recent :=
        merge_merge (.of_readStorage hr) h.distinct
      change merged.refreshDesktop env now' storage = merged
      rw [refreshDesktop_eq, hr']
      dsimp only
      rw [hm]
      rfl

theorem Valid.offers_regenerateDesktop (h : s.Valid) (hp : path ∈ s.folders) :
    (s.regenerateDesktop env).offers path = 1 := by
  have hl : (s.recent.filter (·.uri ∉ s.pinned)).length ≤ maxRecent :=
    Nat.le_trans (List.length_filter_le _ _) h.length
  have ho : (s.regenerateDesktop env).offers path =
      (s.pinned ++ (s.recent.filter (·.uri ∉ s.pinned)).map Place.uri).count path := by
    rw [offers, regenerateDesktop, Option.map_some, Option.getD_some, opened_desktopFile,
      List.count_map_of_injective _ _ escape_injective, List.take_of_length_le hl]
  rw [ho]
  apply List.count_eq_one_of_mem
  · refine List.nodup_append.mpr ⟨h.nodup_pinned, h.distinct.filter _, fun a ha b hb he => ?_⟩
    have ⟨item, hi, hb⟩ := List.mem_map.mp hb
    subst he hb
    exact of_decide_eq_true (List.mem_filter.mp hi).2 ha
  · rw [List.mem_append]
    by_cases hpin : path ∈ s.pinned
    case pos => exact .inl hpin
    case neg =>
      have hr := (List.mem_append.mp hp).resolve_left hpin
      have ⟨item, hi, he⟩ := List.mem_map.mp hr
      subst he
      exact .inr (List.mem_map_of_mem (List.mem_filter.mpr ⟨hi, decide_eq_true hpin⟩))

theorem Valid.consistent_iff (h : s.Valid) : s.Consistent ↔
    (∀ item ∈ s.recent, item.uri ∉ s.pinned) ∧ ∀ path ∈ s.folders, s.offers path = 1 :=
  ⟨fun hc => ⟨hc.unpinned, hc.offered⟩, fun ⟨hu, ho⟩ => ⟨h, hu, ho, fun _ _ _ _ => h.refreshDesktop_refreshDesktop⟩⟩

theorem Valid.regenerateDesktop_consistent_iff (h : s.Valid) :
    (s.regenerateDesktop env).Consistent ↔ ∀ item ∈ s.recent, item.uri ∉ s.pinned := by
  have hv : (s.regenerateDesktop env).Valid := { h with }
  rw [hv.consistent_iff]
  exact and_iff_left fun path => h.offers_regenerateDesktop

-- The lists that state.json and its backup may hold.
structure Listed (recent : List Place) : Prop where
  length   : recent.length ≤ maxRecent
  distinct : Distinct Place.uri recent

def BackedUp (s : Files) : Prop :=
  ∀ recent, s.backup = some recent → Listed recent

theorem Listed.take (h : Distinct Place.uri recent) : Listed (recent.take maxRecent) :=
  ⟨List.length_take_le _ _, h.take _⟩

theorem Listed.filter (h : Listed recent) (p : Place → Bool) : Listed (recent.filter p) :=
  ⟨Nat.le_trans (List.length_filter_le _ _) h.length, h.distinct.filter p⟩

theorem Valid.listed (h : s.Valid) : Listed s.recent :=
  ⟨h.length, h.distinct⟩

theorem Valid.backupState (h : s.Valid) (hb : s.BackedUp) : s.backupState.BackedUp := by
  intro recent hr
  cases hs : s.state with
  | none =>
    rw [Files.backupState, hs] at hr
    exact hb recent hr
  | some state =>
    rw [Files.backupState, hs] at hr
    cases hr
    have hl := h.listed
    rw [Files.recent, hs] at hl
    exact hl

-- What the commands leave when they end with the desktop file.
theorem regenerated (hl : Listed recent) (hp : s.pinned.Nodup) (hu : ∀ item ∈ recent, item.uri ∉ s.pinned)
    (hb : s.BackedUp) :
    ((s.writeState recent).regenerateDesktop env).Consistent ∧ ((s.writeState recent).regenerateDesktop env).BackedUp :=
  have hv : (s.writeState recent).Valid := ⟨hl.length, hl.distinct, hp⟩
  ⟨hv.regenerateDesktop_consistent_iff.mpr hu, hb⟩

theorem mem_filter_uri {item : Place} (h : item ∈ recent.filter (·.uri ≠ path)) :
    item ∈ recent ∧ item.uri ≠ path :=
  ⟨(List.mem_filter.mp h).1, of_decide_eq_true (List.mem_filter.mp h).2⟩

namespace Consistent

theorem addRecent (h : s.Consistent) (hb : s.BackedUp) :
    (s.addRecent env now path).Consistent ∧ (s.addRecent env now path).BackedUp := by
  have hb := h.backupState hb
  rw [Files.addRecent]
  split
  case isTrue =>
    refine regenerated (.take (h.distinct.filter _)) h.nodup_pinned (fun item hi => ?_) hb
    exact h.unpinned item (mem_filter_uri (List.mem_of_mem_take hi)).1
  case isFalse hp =>
    refine regenerated (.take (h.distinct.cons_filter ⟨path, pathName path, now⟩)) h.nodup_pinned (fun item hi => ?_) hb
    cases List.mem_cons.mp (List.mem_of_mem_take hi) with
    | inl hi => exact hi ▸ hp
    | inr hi => exact h.unpinned item (mem_filter_uri hi).1

theorem pinPlace (h : s.Consistent) (hb : s.BackedUp) :
    (s.pinPlace env path).Consistent ∧ (s.pinPlace env path).BackedUp := by
  have hl := h.listed.filter (·.uri ≠ path)
  rw [Files.pinPlace]
  split
  case isTrue hp => exact regenerated hl h.nodup_pinned (fun item hi => h.unpinned item (mem_filter_uri hi).1) hb
  case isFalse hp =>
    refine regenerated (s := { s with pinned := s.pinned ++ [path] }) hl ?_ (fun item hi hm => ?_) hb
    · exact h.nodup_pinned.append (List.nodup_singleton _) (List.disjoint_singleton.mpr hp)
    · have ⟨hi, hne⟩ := mem_filter_uri hi
      cases List.mem_append.mp hm with
      | inl hm => exact h.unpinned item hi hm
      | inr hm => exact hne (List.mem_singleton.mp hm)

theorem unpinPlace (h : s.Consistent) (hb : s.BackedUp) :
    (s.unpinPlace env now path).Consistent ∧ (s.unpinPlace env now path).BackedUp := by
  refine regenerated (s := { s with pinned := s.pinned.erase path })
    (.take (h.distinct.cons_filter ⟨path, pathName path, now⟩)) (h.nodup_pinned.erase path) (fun item hi => ?_) hb
  cases List.mem_cons.mp (List.mem_of_mem_take hi) with
  | inl hi => exact hi ▸ h.nodup_pinned.not_mem_erase
  | inr hi => exact fun hm => h.unpinned item (mem_filter_uri hi).1 (List.mem_of_mem_erase hm)

theorem clearRecent (h : s.Consistent) (hb : s.BackedUp) :
    (s.clearRecent env).Consistent ∧ (s.clearRecent env).BackedUp :=
  regenerated ⟨Nat.zero_le _, .nil⟩ h.nodup_pinned (List.forall_mem_nil _) (h.backupState hb)

theorem refreshDesktop (h : s.Consistent) (hb : s.BackedUp) :
    (s.refreshDesktop env now storage).Consistent ∧ (s.refreshDesktop env now storage).BackedUp := by
  rw [refreshDesktop_eq]
  split
  case h_1 folders hr =>
    have hf := Fresh.of_readStorage hr
    exact regenerated ⟨length_merge .., distinct_merge hf h.distinct⟩ h.nodup_pinned (unpinned_merge hf) hb
  case h_2 => exact regenerated h.listed h.nodup_pinned h.unpinned hb
  case h_3 => exact ⟨h.initState.consistent_iff.mpr ⟨h.unpinned, h.offered⟩, hb⟩

end Consistent

-- The recent places may be put back, since a storage file is merged with them or since they are not pinned. An
-- exception leaves the desktop file as it is.
def MayRestore (s : Files) (env : Env) (storage : StorageFile) (recent : List Place) : Prop :=
  match env.readStorage s.pinned storage with
  | .ok (some _) => True
  | .ok none => ∀ item ∈ recent, item.uri ∉ s.pinned
  | .error _ => ∀ item ∈ recent, item.uri ∉ s.pinned ∧ s.offers item.uri = 1

def RestoresUnpinned (s : Files) : Event → Prop
  | ⟨env, _, .restore storage⟩ => ∀ recent, s.backup = some recent → s.MayRestore env storage recent
  | _ => True

theorem Consistent.restored_iff (env : Env) (now : Int) (storage : StorageFile) (h : s.Consistent) (hb : s.BackedUp)
    (hl : Listed recent) :
    ({ s with state := some recent }.refreshDesktop env now storage).BackedUp ∧
      (({ s with state := some recent }.refreshDesktop env now storage).Consistent ↔
        s.MayRestore env storage recent) := by
  have hv : Valid { s with state := some recent } := ⟨hl.length, hl.distinct, h.nodup_pinned⟩
  rw [refreshDesktop_eq, MayRestore]
  dsimp only
  cases hs : env.readStorage s.pinned storage with
  | error =>
    refine ⟨hb, hv.initState.consistent_iff.trans ⟨fun ⟨hu, ho⟩ item hi => ⟨hu item hi, ?_⟩, fun hr => ⟨?_, ?_⟩⟩⟩
    · exact ho item.uri (List.mem_append_right _ (List.mem_map_of_mem hi))
    · exact fun item hi => (hr item hi).1
    · intro path hp
      cases List.mem_append.mp hp with
      | inl hp => exact h.offered path (List.mem_append_left _ hp)
      | inr hp =>
        have ⟨item, hi, he⟩ := List.mem_map.mp hp
        exact he ▸ (hr item hi).2
  | ok folders? =>
    cases folders? with
    | none => exact ⟨hb, hv.initState.regenerateDesktop_consistent_iff⟩
    | some folders =>
      have hf := Fresh.of_readStorage hs
      refine ⟨hb, iff_of_true ?_ trivial⟩
      exact (regenerated (s := { s with state := some recent }) ⟨length_merge .., distinct_merge hf hl.distinct⟩
        h.nodup_pinned (unpinned_merge hf) hb).1

theorem Consistent.restoreState_iff (env : Env) (now : Int) (storage : StorageFile) (h : s.Consistent)
    (hb : s.BackedUp) :
    (s.restoreState env now storage).BackedUp ∧ ((s.restoreState env now storage).Consistent ↔
      ∀ recent, s.backup = some recent → s.MayRestore env storage recent) := by
  rw [restoreState]
  split
  case h_1 recent hr =>
    have ⟨hb', hc⟩ := h.restored_iff env now storage hb (hb recent hr)
    refine ⟨hb', hc.trans ⟨fun hm recent' hr' => ?_, fun hm => hm recent hr⟩⟩
    cases hr.symm.trans hr'
    exact hm
  case h_2 hn =>
    refine ⟨hb, iff_of_true h fun recent hr => ?_⟩
    cases hn.symm.trans hr

theorem Consistent.withPath (h : s.Consistent) (hb : s.BackedUp) {command : String → Files → Files}
    (hc : ∀ path, (command path s).Consistent ∧ (command path s).BackedUp) :
    (s.withPath env path command).Consistent ∧ (s.withPath env path command).BackedUp := by
  rw [Files.withPath]
  split
  case h_1 => exact hc _
  case h_2 => exact ⟨h, hb⟩

theorem step_iff {event : Event} (h : s.Consistent ∧ s.BackedUp) (hs : s.step event = some s') :
    (s'.Consistent ↔ s.RestoresUnpinned event) ∧ (s.RestoresUnpinned event → s'.Consistent ∧ s'.BackedUp) := by
  have hkept (hk : s'.Consistent ∧ s'.BackedUp) (hr : s.RestoresUnpinned event) :
      (s'.Consistent ↔ s.RestoresUnpinned event) ∧ (s.RestoresUnpinned event → s'.Consistent ∧ s'.BackedUp) :=
    ⟨iff_of_true hk.1 hr, fun _ => hk⟩
  have ⟨env, now, command⟩ := event
  have ⟨hc, hb⟩ := h
  cases command <;> cases hs
  case add path => exact hkept (hc.withPath hb fun _ => hc.addRecent hb) trivial
  case pin path => exact hkept (hc.withPath hb fun _ => hc.pinPlace hb) trivial
  case unpin path => exact hkept (hc.withPath hb fun _ => hc.unpinPlace hb) trivial
  case clearRecent => exact hkept (hc.clearRecent hb) trivial
  case refresh storage => exact hkept (hc.refreshDesktop hb) trivial
  case restore storage =>
    have ⟨hb', hr⟩ := hc.restoreState_iff env now storage hb
    exact ⟨hr, fun hm => ⟨hr.mpr hm, hb'⟩⟩

-- At the start there may be a file with no recent places, or none.
def empty (hasState : Bool) : Files :=
  { state := if hasState then some [] else none }

theorem consistent_empty {hasState : Bool} : (empty hasState).Consistent ∧ (empty hasState).BackedUp := by
  have hr : (empty hasState).recent = [] := by cases hasState <;> rfl
  have hv : (empty hasState).Valid := ⟨hr ▸ Nat.zero_le _, hr ▸ .nil, List.nodup_nil⟩
  have hf : (empty hasState).folders = [] := by cases hasState <;> rfl
  exact ⟨hv.consistent_iff.mpr ⟨hr ▸ List.forall_mem_nil _, hf ▸ List.forall_mem_nil _⟩, fun _ h => nomatch h⟩

theorem always_consistent_iff (hasState : Bool) (events : List Event) :
    Machine.Always step Consistent (empty hasState) events ↔
      Machine.EachStep step RestoresUnpinned (empty hasState) events :=
  Machine.Always.iff_eachStep consistent_empty And.left step_iff

-- An environment in which all paths are as they should be.
def plainEnv : Env where
  home      := "/home/user"
  icon      := "vscode"
  resolve   := .ok
  isDir _   := true
  readLines := fun _ => .error .other
  urlparse  := fun uri => .ok ⟨"file", "", uri⟩
  unquote   := id

-- The folder is pinned after the recent places have been cleared, and then they are restored.
theorem not_always_consistent :
    ¬Machine.Always step Consistent (empty true)
      [⟨plainEnv, 1, .add "/home/user/project"⟩, ⟨plainEnv, 2, .clearRecent⟩, ⟨plainEnv, 3, .pin "/home/user/project"⟩,
        ⟨plainEnv, 4, .restore .absent⟩] := by
  intro h
  have hc := (((h.2 _ rfl).2 _ rfl).2 _ rfl).2 _ rfl
  exact hc.unpinned ⟨"/home/user/project", "project", 1⟩ (by decide) (by decide)

end JumpList.Files
