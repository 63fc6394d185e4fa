import PlasmaModel.JumpList.Manager
import PlasmaModel.Lib.Fallible
import PlasmaModel.Lib.Hash

namespace JumpList

open Keyed

-- Texts are told apart by their codes if no code is the start of another one.
theorem flatMap_injective {α β : Type} {code : α → List β} (hn : ∀ a, code a ≠ [])
    (hp : ∀ a b, code a <+: code b → a = b) : Function.Injective fun l : List α => l.flatMap code := by
  intro l
  induction l
  case nil =>
    intro l' h
    cases l' with
    | nil => rfl
    | cons a l' => exact absurd (List.append_eq_nil_iff.mp h.symm).1 (hn a)
  case cons a l ih =>
    intro l' h
    cases l' with
    | nil => exact absurd (List.append_eq_nil_iff.mp h).1 (hn a)
    | cons b l' =>
      have h : code a ++ l.flatMap code = code b ++ l'.flatMap code := h
      have hab : a = b := by
        cases List.prefix_or_prefix_of_prefix (List.prefix_append (code a) (l.flatMap code))
          (h ▸ List.prefix_append (code b) (l'.flatMap code)) with
        | inl h => exact hp _ _ h
        | inr h => exact (hp _ _ h).symm
      subst hab
      rw [ih (List.append_cancel_left h)]

theorem escapeChar_ne_nil (c : Char) : escapeChar c ≠ [] := by
  unfold escapeChar
  split <;> exact List.cons_ne_nil _ _

theorem escapeChar_prefix_free (c d : Char) (h : escapeChar c <+: escapeChar d) : c = d := by
  unfold escapeChar at h
  split at h <;> split at h <;> simp_all

theorem escape_injective : Function.Injective escape := by
  intro s s' h
  have h := flatMap_injective escapeChar_ne_nil escapeChar_prefix_free (String.ofList_injective h)
  exact String.toList_injective h

variable {icon : String} {pinned : List String} {recent : List Place} {path : String}

-- The folders that the groups of the listed actions open.
def DesktopFile.opened (file : DesktopFile) : List String :=
  file.actions.filterMap fun id => (file.groups.find? (·.id = id)).bind (·.exec.folder?)

def ActionId.idx : ActionId → Nat
  | openPinned idx | unpinPinned idx | openRecent idx | pinRecent idx => idx
  | newEmptyWindow | clearRecent => 0

section

variable {α : Type} {actions : α → Nat → List DesktopAction} {n : Nat} {l : List α}

theorem idx_of_mem (hi : ∀ a idx, ∀ action ∈ actions a idx, action.id.idx = idx) {action : DesktopAction}
    (h : action ∈ (l.zipIdx n).flatMap fun entry => actions entry.1 entry.2) :
    n ≤ action.id.idx ∧ action.id.idx < n + l.length := by
  have ⟨⟨a, idx⟩, ha, h⟩ := List.mem_flatMap.mp h
  have ⟨hle, hlt, _⟩ := List.mem_zipIdx ha
  rw [hi a idx action h]
  exact ⟨hle, hlt⟩

theorem distinct_flatMap_zipIdx (hd : ∀ a idx, Distinct DesktopAction.id (actions a idx))
    (hi : ∀ a idx, ∀ action ∈ actions a idx, action.id.idx = idx) :
    Distinct DesktopAction.id ((l.zipIdx n).flatMap fun entry => actions entry.1 entry.2) := by
  induction l generalizing n
  case nil => exact .nil
  case cons a l ih =>
    refine (hd a n).append ih fun action ha action' ha' he => ?_
    have hlt := (idx_of_mem hi ha').1
    rw [← he, hi a n action ha] at hlt
    exact Nat.not_succ_le_self n hlt

end

theorem idx_pinnedActions (path : String) (idx : Nat) : ∀ action ∈ pinnedActions path idx, action.id.idx = idx := by
  simp [pinnedActions, ActionId.idx]

theorem idx_recentActions (item : Place) (idx : Nat) : ∀ action ∈ recentActions item idx, action.id.idx = idx := by
  simp [recentActions, ActionId.idx]

theorem opened_pinnedActions {n : Nat} :
    ((pinned.zipIdx n).flatMap fun entry => pinnedActions entry.1 entry.2).filterMap (·.exec.folder?) =
      pinned.map escape := by
  rw [List.filterMap_flatMap]
  induction pinned generalizing n
  case nil => rfl
  case cons path pinned ih => exact congrArg (escape path :: ·) ih

theorem opened_recentActions {n : Nat} :
    ((recent.zipIdx n).flatMap fun entry => recentActions entry.1 entry.2).filterMap (·.exec.folder?) =
      (recent.map Place.uri).map escape := by
  rw [List.filterMap_flatMap]
  induction recent generalizing n
  case nil => rfl
  case cons item recent ih => exact congrArg (escape item.uri :: ·) ih

theorem distinct_groups : Distinct DesktopAction.id (desktopFile icon pinned recent).groups := by
  have hpinned : Distinct DesktopAction.id
      ((pinned.zipIdx 1).flatMap fun entry => pinnedActions entry.1 entry.2) :=
    distinct_flatMap_zipIdx (fun _ _ => by simp [Distinct, pinnedActions]) idx_pinnedActions
  have hrecent (recent : List Place) : Distinct DesktopAction.id
      ((recent.zipIdx (pinned.length + 1)).flatMap fun entry => recentActions entry.1 entry.2) :=
    distinct_flatMap_zipIdx (fun _ _ => by simp [Distinct, recentActions]) idx_recentActions
  have hentries (recent : List Place) : ∀ action ∈
      ((pinned.zipIdx 1).flatMap fun entry => pinnedActions entry.1 entry.2) ++
        (recent.zipIdx (pinned.length + 1)).flatMap (fun entry => recentActions entry.1 entry.2),
      0 < action.id.idx := by
    intro action ha
    cases List.mem_append.mp ha with
    | inl ha => exact (idx_of_mem idx_pinnedActions ha).1
    | inr ha => exact Nat.lt_of_lt_of_le (Nat.succ_pos _) (idx_of_mem idx_recentActions ha).1
  rw [desktopFile]
  refine Distinct.cons (Distinct.append (hpinned.append (hrecent _) fun a ha b hb he => ?_) ?_ fun a ha b hb he => ?_)
    fun b hb he => ?_
  · have hlt := (idx_of_mem idx_pinnedActions ha).2
    have hle := (idx_of_mem idx_recentActions hb).1
    rw [he] at hlt
    omega
  · exact List.nodup_singleton _
  · rw [List.mem_singleton] at hb
    have hpos := hentries _ a ha
    rw [he, hb] at hpos
    exact Nat.lt_irrefl 0 hpos
  · cases List.mem_append.mp hb with
    | inl hb =>
      have hpos := hentries _ b hb
      rw [he] at hpos
      exact Nat.lt_irrefl 0 hpos
    | inr hb =>
      rw [List.mem_singleton.mp hb] at he
      cases he

theorem opened_desktopFile : (desktopFile icon pinned recent).opened =
    (pinned ++ ((recent.filter (·.uri ∉ pinned)).take maxRecent).map Place.uri).map escape := by
  have ha : (desktopFile icon pinned recent).actions = (desktopFile icon pinned recent).groups.map DesktopAction.id := by
    simp [desktopFile]
  rw [DesktopFile.opened, ha, distinct_groups.filterMap_find?]
  simp only [desktopFile, List.filterMap_cons, List.filterMap_append, opened_pinnedActions, opened_recentActions]
  simp [Exec.folder?]

end JumpList

namespace JumpList

open Keyed Fallible

variable {env : Env} {now now' : Int} {pinned folders folders' : List String} {old : List Place} {item : Place}

-- The folders that a storage file gives for the recent places.
structure Fresh (pinned folders : List String) : Prop where
  nodup    : folders.Nodup
  nonempty : ∀ path ∈ folders, path ≠ ""
  unpinned : ∀ path ∈ folders, path ∉ pinned

namespace Fresh

theorem nil : Fresh pinned [] :=
  ⟨List.nodup_nil, List.forall_mem_nil _, List.forall_mem_nil _⟩

theorem remember {uri : Json} (h : Fresh pinned folders) (hr : env.remember pinned folders uri = .ok folders') :
    Fresh pinned folders' := by
  have ⟨path?, _, hr⟩ := bind_eq_ok.mp hr
  cases path? with
  | none =>
    cases hr
    exact h
  | some path =>
    have hr := pure_eq_ok.mp hr
    subst hr
    split
    case isFalse => exact h
    case isTrue hnew =>
      have ⟨hne, hnew, hp⟩ := hnew
      refine ⟨List.nodup_append.mpr ⟨h.nodup, List.nodup_singleton _, ?_⟩, ?_, ?_⟩
      · rintro p hp _ hm rfl
        exact hnew (List.mem_singleton.mp hm ▸ hp)
      · exact List.forall_mem_append.mpr ⟨h.nonempty, List.forall_mem_singleton.mpr hne⟩
      · exact List.forall_mem_append.mpr ⟨h.unpinned, List.forall_mem_singleton.mpr hp⟩

theorem rememberAll {key : String} {items : List Json} (h : Fresh pinned folders)
    (hr : env.rememberAll pinned key folders items = .ok folders') : Fresh pinned folders' := by
  refine foldlM_preserves (Fresh pinned) (fun item _ folders folders' h hr => ?_) h hr
  have ⟨_, _, hr⟩ := bind_eq_ok.mp hr
  exact h.remember hr

theorem of_vscodeFolders {storage : Json} (h : env.vscodeFolders pinned storage = .ok folders) :
    Fresh pinned folders := by
  have ⟨windowsState, _, h⟩ := bind_eq_ok.mp h
  have ⟨lastActiveWindow, _, h⟩ := bind_eq_ok.mp h
  have ⟨uri, _, h⟩ := bind_eq_ok.mp h
  have ⟨first, hfirst, h⟩ := bind_eq_ok.mp h
  have ⟨opened, _, h⟩ := bind_eq_ok.mp h
  have ⟨openedWindows, _, h⟩ := bind_eq_ok.mp h
  have ⟨second, hsecond, h⟩ := bind_eq_ok.mp h
  have ⟨backupWorkspaces, _, h⟩ := bind_eq_ok.mp h
  have ⟨backup, _, h⟩ := bind_eq_ok.mp h
  have ⟨items, _, h⟩ := bind_eq_ok.mp h
  exact ((nil.remember hfirst).rememberAll hsecond).rememberAll h

theorem of_readStorage {storage : StorageFile} (h : env.readStorage pinned storage = .ok (some folders)) :
    Fresh pinned folders := by
  cases storage with
  | absent => cases h
  | unreadable => cases h
  | raises => cases h
  | json storage =>
    have ⟨_, hf, h⟩ := bind_eq_ok.mp h
    cases h
    exact of_vscodeFolders hf

end Fresh

def kept (pinned folders : List String) (item : Place) : Bool :=
  item.uri ≠ "" ∧ item.uri ∉ folders ∧ item.uri ∉ pinned

theorem merge_eq : merge now pinned folders old =
    (folders.map (stableEntry now old) ++ (old.filter (kept pinned folders)).map Place.named).take maxRecent :=
  rfl

theorem map_uri_stableEntry : (folders.map (stableEntry now old)).map Place.uri = folders := by
  rw [List.map_map]
  exact List.map_id folders

theorem named_named (item : Place) : item.named.named = item.named := by
  by_cases hn : item.name = "" <;> simp [Place.named, hn]

theorem length_merge (now : Int) (pinned folders : List String) (old : List Place) :
    (merge now pinned folders old).length ≤ maxRecent :=
  List.length_take_le _ _

theorem mem_merge (h : item ∈ merge now pinned folders old) :
    item.uri ∈ folders ∨ kept pinned folders item := by
  cases List.mem_append.mp (List.mem_of_mem_take h) with
  | inl h =>
    have ⟨path, hp, he⟩ := List.mem_map.mp h
    exact .inl (he ▸ hp)
  | inr h =>
    have ⟨old, ho, he⟩ := List.mem_map.mp h
    exact .inr (he ▸ (List.mem_filter.mp ho).2)

theorem distinct_merge (hf : Fresh pinned folders) (h : Distinct Place.uri old) :
    Distinct Place.uri (merge now pinned folders old) := by
  refine Distinct.take (Distinct.append ?_ ?_ fun a ha b hb he => ?_) maxRecent
  · rw [Distinct, map_uri_stableEntry]
    exact hf.nodup
  · rw [Distinct, List.map_map]
    exact h.filter _
  · obtain ⟨path, hp, ha⟩ := List.mem_map.mp ha
    obtain ⟨item, hi, hb⟩ := List.mem_map.mp hb
    have hk := of_decide_eq_true (List.mem_filter.mp hi).2
    subst ha hb
    exact hk.2.1 (he ▸ hp)

theorem unpinned_merge (hf : Fresh pinned folders) : ∀ item ∈ merge now pinned folders old, item.uri ∉ pinned := by
  intro item hi
  cases mem_merge hi with
  | inl h => exact hf.unpinned _ h
  | inr h => exact (of_decide_eq_true h).2.2

theorem timestamp_stableEntry (now : Int) (h : Distinct Place.uri old) (hi : item ∈ old) :
    (stableEntry now old item.uri).timestamp = item.timestamp := by
  have hf : old.reverse.find? (·.uri = item.uri) = some item := h.reverse.find?_eq_some (List.mem_reverse.mpr hi)
  rw [stableEntry, hf]
  rfl

-- Merging the same folders again finds every entry as it left it.
theorem merge_merge (hf : Fresh pinned folders) (h : Distinct Place.uri old) :
    merge now' pinned folders (merge now pinned folders old) = merge now pinned folders old := by
  let entries := (folders.take maxRecent).map (stableEntry now old)
  let rest := ((old.filter (kept pinned folders)).map Place.named).take (maxRecent - folders.length)
  have hm : merge now pinned folders old = entries ++ rest := by
    rw [merge_eq, List.take_append, List.length_map, ← List.map_take]
  have hkept : (entries ++ rest).filter (kept pinned folders) = rest := by
    rw [List.filter_append, List.filter_eq_nil_iff.mpr, List.nil_append, List.filter_eq_self]
    · intro item hi
      have ⟨_, ho, he⟩ := List.mem_map.mp (List.mem_of_mem_take hi)
      exact he ▸ (List.mem_filter.mp ho).2
    · intro item hi hk
      have ⟨path, hp, he⟩ := List.mem_map.mp hi
      subst he
      exact (of_decide_eq_true hk).2.1 (List.mem_of_mem_take hp)
  have hnamed : rest.map Place.named = rest := by
    rw [List.map_take, List.map_map]
    exact congrArg (List.take _) (List.map_congr_left fun item _ => named_named item)
  have hentries : (folders.take maxRecent).map (stableEntry now' (entries ++ rest)) = entries := by
    refine List.map_congr_left fun path hp => ?_
    have hi : stableEntry now old path ∈ entries ++ rest := List.mem_append_left _ (List.mem_map_of_mem hp)
    have ht := timestamp_stableEntry now' (hm ▸ distinct_merge hf h) hi
    exact congrArg (Place.mk path (pathName path)) ht
  rw [hm, merge_eq, hkept, hnamed, List.take_append, List.length_map, ← List.map_take, hentries, List.take_take,
    Nat.min_self]

end JumpList
