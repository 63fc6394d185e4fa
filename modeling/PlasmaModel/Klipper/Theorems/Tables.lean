import PlasmaModel.Klipper.HistoryModel
import PlasmaModel.Lib.Partition

namespace Klipper.HistoryModel

variable {s : HistoryModel} {uuid uuid' : String} {uuids : List String} {update : MainRow → MainRow} {now : Int}
variable {key : String × String} {aux : AuxTable} {data : List MimeData}

theorem lookup_updateMain : (s.updateMain uuid update).main.lookup uuid' =
    if uuid' = uuid then (s.main.lookup uuid).map update else s.main.lookup uuid' := by
  rw [updateMain]
  split
  case h_1 row hr => rw [Hash.lookup_insert, hr, Option.map_some]
  case h_2 hn =>
    split
    case isTrue he => rw [he, hn, Option.map_none]
    case isFalse => rfl

theorem mem_updateMain : uuid' ∈ (s.updateMain uuid update).main ↔ uuid' ∈ s.main := by
  rw [← AList.lookup_isSome, ← AList.lookup_isSome, lookup_updateMain]
  split
  case isTrue he => rw [he, Option.isSome_map]
  case isFalse => rfl

theorem isItemStarred_updateMain : (s.updateMain uuid update).isItemStarred uuid' =
    if uuid' = uuid then (s.main.lookup uuid).any fun row => (update row).starred else s.isItemStarred uuid' := by
  rw [isItemStarred, lookup_updateMain]
  split
  case isTrue => rw [Option.any_map]
  case isFalse => rfl

theorem items_updateMain : (s.updateMain uuid update).items = s.items := by
  rw [updateMain]
  split <;> rfl

theorem aux_updateMain : (s.updateMain uuid update).aux = s.aux := by
  rw [updateMain]
  split <;> rfl

theorem updateMain_frame : { s.updateMain uuid update with main := s.main } = s := by
  rw [updateMain]
  split <;> rfl

-- The time of the first item is all that changes.
theorem changed_cases (now : Int) (isTop : Bool) (s : HistoryModel) :
    s.changed now isTop = s ∨ ∃ uuid, s.changed now isTop = s.updateMain uuid ({ · with lastUsedTime := now }) := by
  rw [changed]
  split
  case h_1 => exact .inl rfl
  case h_2 =>
    split
    case isTrue => exact .inr ⟨_, rfl⟩
    case isFalse => exact .inl rfl

theorem changed_frame (now : Int) (isTop : Bool) (s : HistoryModel) :
    { s.changed now isTop with main := s.main } = s := by
  cases changed_cases now isTop s with
  | inl h => rw [h]
  | inr h =>
    have ⟨_, h⟩ := h
    rw [h, updateMain_frame]

section

variable {isTop : Bool}

theorem items_changed : (s.changed now isTop).items = s.items := by
  have h := congrArg items (changed_frame now isTop s)
  exact h

theorem starredCount_changed : (s.changed now isTop).starredCount = s.starredCount := by
  have h := congrArg starredCount (changed_frame now isTop s)
  exact h

theorem maxSize_changed : (s.changed now isTop).maxSize = s.maxSize := by
  have h := congrArg maxSize (changed_frame now isTop s)
  exact h

theorem aux_changed : (s.changed now isTop).aux = s.aux := by
  have h := congrArg aux (changed_frame now isTop s)
  exact h

theorem mem_changed : uuid ∈ (s.changed now isTop).main ↔ uuid ∈ s.main := by
  cases changed_cases now isTop s with
  | inl h => rw [h]
  | inr h =>
    have ⟨_, h⟩ := h
    rw [h, mem_updateMain]

theorem isItemStarred_changed : (s.changed now isTop).isItemStarred uuid = s.isItemStarred uuid := by
  cases changed_cases now isTop s with
  | inl h => rw [h]
  | inr h =>
    have ⟨_, h⟩ := h
    rw [h, isItemStarred_updateMain]
    split
    case isTrue he => rw [isItemStarred, he]
    case isFalse => rfl

end

theorem not_isItemStarred (h : uuid ∉ s.main) : s.isItemStarred uuid = false := by
  rw [isItemStarred, Hash.notMem_iff.mp h, Option.any_none]

section

variable {clip : Clip}

theorem items_startJob : (s.startJob now clip).items = s.items := by
  rw [startJob]
  split <;> rfl

theorem starredCount_startJob : (s.startJob now clip).starredCount = s.starredCount := by
  rw [startJob]
  split <;> rfl

theorem aux_startJob : (s.startJob now clip).aux = s.aux := by
  rw [startJob]
  split <;> rfl

theorem mem_startJob : uuid ∈ (s.startJob now clip).main ↔ uuid = clip.uuid ∨ uuid ∈ s.main := by
  rw [startJob]
  split
  case isTrue hm => exact ⟨.inr, fun h => h.elim (fun he => he ▸ hm) id⟩
  case isFalse => exact AList.mem_insert s.main

-- A new row is not starred.
theorem isItemStarred_startJob : (s.startJob now clip).isItemStarred uuid = s.isItemStarred uuid := by
  rw [startJob]
  split
  case isTrue => rfl
  case isFalse hm =>
    rw [isItemStarred, Hash.lookup_insert]
    split
    case isTrue he => exact (not_isItemStarred (he ▸ hm)).symm
    case isFalse => rfl

end

theorem lookup_deleteRows :
    (s.deleteRows uuids).main.lookup uuid = if uuid ∈ uuids then none else s.main.lookup uuid :=
  Hash.lookup_foldl_erase

theorem mem_deleteRows : uuid ∈ (s.deleteRows uuids).main ↔ uuid ∈ s.main ∧ uuid ∉ uuids :=
  Hash.mem_foldl_erase

theorem isItemStarred_deleteRows (h : uuid ∉ uuids) :
    (s.deleteRows uuids).isItemStarred uuid = s.isItemStarred uuid := by
  rw [isItemStarred, lookup_deleteRows, if_neg h, isItemStarred]

theorem mem_deleteAux : key ∈ deleteAux uuids aux ↔ key ∈ aux ∧ key.1 ∉ uuids := by
  rw [deleteAux, Hash.mem_foldl_erase, List.mem_filter, AList.mem_keys]
  simp only [decide_eq_true_eq, not_and]
  exact and_congr_right fun hk => forall_prop_of_true hk

theorem mem_insertAux : key ∈ insertAux uuid data aux ↔ key ∈ aux ∨ key.1 = uuid ∧ key.2 ∈ data.map MimeData.type := by
  rw [insertAux]
  induction data generalizing aux
  case nil => simp
  case cons d data ih =>
    rw [List.foldl_cons, ih, List.map_cons, List.mem_cons]
    have hd : key ∈ (if (uuid, d.type) ∈ aux then aux else aux.insert (uuid, d.type) d.uuid) ↔
        key ∈ aux ∨ key.1 = uuid ∧ key.2 = d.type := by
      rw [← Prod.mk.injEq]
      split
      case isTrue h => exact ⟨.inl, fun hk => hk.elim id fun he => (he ▸ h : (key.1, key.2) ∈ aux)⟩
      case isFalse => rw [AList.mem_insert, or_comm]
    rw [hd, or_assoc, ← and_or_left]

theorem mem_of_insertAuxAll {mimeTypes : List String} {aux' : AuxTable} (h : insertAuxAll uuid mimeTypes aux = some aux')
    (hk : key ∈ aux') : key ∈ aux ∨ key.1 = uuid := by
  induction mimeTypes generalizing aux
  case nil =>
    cases h
    exact .inl hk
  case cons mimeType mimeTypes ih =>
    rw [insertAuxAll] at h
    split at h
    case isTrue => cases h
    case isFalse =>
      cases ih h with
      | inr he => exact .inr he
      | inl hm =>
        cases (AList.mem_insert aux).mp hm with
        | inl he => exact .inr (congrArg Prod.fst he)
        | inr hm => exact .inl hm

theorem mem_nonStarredUuids : uuid ∈ s.nonStarredUuids ↔ uuid ∈ s.main ∧ s.isItemStarred uuid = false := by
  rw [nonStarredUuids, Hash.mem_iff, isItemStarred]
  constructor
  case mp =>
    intro hm
    have ⟨⟨_, row⟩, hr, he⟩ := List.mem_map.mp hm
    have ⟨hr, hs⟩ := List.mem_filter.mp hr
    cases he
    have hr := Hash.mem_entries_iff.mp hr
    exact ⟨⟨row, hr⟩, by simpa [hr] using hs⟩
  case mpr =>
    intro ⟨⟨row, hr⟩, hs⟩
    rw [hr, Option.any_some] at hs
    exact List.mem_map.mpr ⟨⟨uuid, row⟩, List.mem_filter.mpr ⟨Hash.mem_entries_iff.mpr hr, by simp [hs]⟩, rfl⟩

end Klipper.HistoryModel

namespace Klipper.HistoryModel

variable {s s' : HistoryModel} {uuid : String} {uuids uuids' : List String} {now timestamp : Int} {clip : Clip}
variable {row count : Nat} {item : HistoryItem}

-- The contents are distinct and have their rows, which others may have as well.
structure Present (uuids : List String) (s : HistoryModel) : Prop where
  nodup    : uuids.Nodup
  mem_main : ∀ uuid ∈ uuids, uuid ∈ s.main

theorem uuids_changed {isTop : Bool} : (s.changed now isTop).uuids = s.uuids :=
  congrArg (List.map HistoryItem.uuid) items_changed

theorem uuids_removeRows (hl : row + count ≤ s.items.length) :
    (s.removeRows now row count).uuids = s.uuids.take row ++ s.uuids.drop (row + count) := by
  rw [removeRows, if_neg (Nat.not_lt.mpr hl)]
  dsimp only
  rw [uuids_changed]
  simp only [HistoryModel.uuids, List.map_append, List.map_take, List.map_drop]

theorem length_uuids : s.uuids.length = s.items.length :=
  List.length_map _

theorem uuids_removeRow (hl : row < s.uuids.length) : (s.removeRow now row).uuids = s.uuids.eraseIdx row := by
  rw [removeRow, uuids_removeRows (length_uuids ▸ hl), List.eraseIdx_eq_take_drop_succ]

theorem mem_removeRows (hl : row + count ≤ s.items.length) : uuid ∈ (s.removeRows now row count).main ↔
    uuid ∈ s.main ∧ uuid ∉ ((s.items.drop row).take count).map HistoryItem.uuid := by
  rw [removeRows, if_neg (Nat.not_lt.mpr hl)]
  exact mem_changed.trans mem_deleteRows

theorem isItemStarred_removeRows (hl : row + count ≤ s.items.length)
    (h : uuid ∉ ((s.items.drop row).take count).map HistoryItem.uuid) :
    (s.removeRows now row count).isItemStarred uuid = s.isItemStarred uuid := by
  rw [removeRows, if_neg (Nat.not_lt.mpr hl)]
  exact isItemStarred_changed.trans (isItemStarred_deleteRows h)

theorem take_drop_one (hi : s.items[row]? = some item) :
    ((s.items.drop row).take 1).map HistoryItem.uuid = [item.uuid] := by
  have ⟨hlt, hi⟩ := List.getElem?_eq_some_iff.mp hi
  rw [List.drop_eq_getElem_cons hlt, hi]
  rfl

-- The removed contents and those that stay.
theorem removed_append_perm (s : HistoryModel) (row count : Nat) :
    (((s.items.drop row).take count).map HistoryItem.uuid ++ (s.uuids.take row ++ s.uuids.drop (row + count))).Perm
      s.uuids := by
  rw [← List.drop_drop, List.map_take, List.map_drop]
  refine .trans (List.perm_append_comm_assoc _ _ _) (.of_eq ?_)
  simp only [HistoryModel.uuids, List.take_append_drop]

theorem uuids_moveRowToTop (hi : s.items[row]? = some item) :
    (s.moveRowToTop now row).uuids = item.uuid :: s.uuids.eraseIdx row := by
  rw [moveRowToTop, hi]
  dsimp only
  rw [uuids_changed, uuids, List.map_cons, uuids, List.eraseIdx_map]

namespace Present

theorem perm (h : s.Present uuids) (hp : uuids.Perm uuids') : s.Present uuids' where
  nodup := hp.nodup_iff.mp h.nodup
  mem_main uuid hu := h.mem_main uuid (hp.mem_iff.mpr hu)

theorem mono (h : s.Present uuids) (hm : ∀ uuid ∈ s.main, uuid ∈ s'.main) : s'.Present uuids where
  nodup := h.nodup
  mem_main uuid hu := hm uuid (h.mem_main uuid hu)

theorem sublist (h : s.Present uuids) (hs : uuids'.Sublist uuids) : s.Present uuids' where
  nodup := h.nodup.sublist hs
  mem_main uuid hu := h.mem_main uuid (hs.subset hu)

theorem removeRows (hl : row + count ≤ s.items.length)
    (hd : (((s.items.drop row).take count).map HistoryItem.uuid).Disjoint uuids) (h : s.Present uuids) :
    (s.removeRows now row count).Present uuids where
  nodup := h.nodup
  mem_main uuid hu := (mem_removeRows hl).mpr ⟨h.mem_main uuid hu, fun hr => hd hr hu⟩

theorem removeRow (hi : s.items[row]? = some item) (hn : item.uuid ∉ uuids) (h : s.Present uuids) :
    (s.removeRow now row).Present uuids := by
  have ⟨hlt, _⟩ := List.getElem?_eq_some_iff.mp hi
  apply Present.removeRows (Nat.succ_le_of_lt hlt) _ h
  rw [take_drop_one hi]
  exact List.singleton_disjoint.mpr hn

theorem startJob (h : s.Present uuids) (hn : clip.uuid ∉ uuids) :
    (s.startJob now clip).Present (clip.uuid :: uuids) where
  nodup := List.nodup_cons.mpr ⟨hn, h.nodup⟩
  mem_main uuid hu := mem_startJob.mpr ((List.mem_cons.mp hu).imp_right (h.mem_main uuid))

end Present

-- The contents of a row have become others, which have taken over its row in the table.
structure Renamed (old new : String) (s s' : HistoryModel) : Prop where
  uuids         : ∃ above below, s.uuids = above ++ old :: below ∧ s'.uuids = above ++ new :: below
  fresh         : new ∉ s.main.erase old
  mem_main      : ∀ uuid, uuid ∈ s'.main ↔ uuid = new ∨ uuid ≠ old ∧ uuid ∈ s.main
  isItemStarred : ∀ uuid, s'.isItemStarred uuid =
    if uuid = new then s.isItemStarred old else if uuid = old then false else s.isItemStarred uuid
  starredCount  : s'.starredCount = s.starredCount
  mem_aux       : ∀ key ∈ s'.aux, key.1 = new ∨ key.1 ≠ old ∧ key ∈ s.aux

theorem Renamed.changed {old new : String} {isTop : Bool} (h : Renamed old new s s') :
    Renamed old new s (s'.changed now isTop) where
  uuids := by
    rw [@uuids_changed s']
    exact h.uuids
  fresh := h.fresh
  mem_main uuid := mem_changed.trans (h.mem_main uuid)
  isItemStarred uuid := isItemStarred_changed.trans (h.isItemStarred uuid)
  starredCount := starredCount_changed.trans h.starredCount
  mem_aux key hk := h.mem_aux key (aux_changed ▸ hk)

-- The star of some contents is another.
structure Restarred (changed : String) (value : Bool) (s s' : HistoryModel) : Prop where
  mem_uuids     : changed ∈ s.uuids
  differs       : value ≠ s.isItemStarred changed
  items         : s'.items = s.items
  mem_main      : ∀ uuid, uuid ∈ s'.main ↔ uuid ∈ s.main
  isItemStarred : ∀ uuid, s'.isItemStarred uuid = if uuid = changed then value else s.isItemStarred uuid
  starredCount  : s'.starredCount = s.starredCount + if value then 1 else -1
  aux           : s'.aux = s.aux

namespace Present

theorem setStarred_cases (row : Nat) (value : Bool) (h : s.Present s.uuids) :
    s.setStarred row value = s ∨ ∃ changed, Restarred changed value s (s.setStarred row value) := by
  rw [HistoryModel.setStarred]
  split
  case h_1 => exact .inl rfl
  case h_2 item hi =>
    split
    case isTrue => exact .inl rfl
    case isFalse hv =>
      have hu : item.uuid ∈ s.uuids := List.mem_map_of_mem (List.mem_of_getElem? hi)
      have ⟨main, hm⟩ := Hash.mem_iff.mp (h.mem_main _ hu)
      refine .inr ⟨item.uuid, hu, hv, items_updateMain, fun uuid => mem_updateMain, fun uuid => ?_, rfl, aux_updateMain⟩
      refine isItemStarred_updateMain.trans ?_
      rw [hm, Option.any_some]

theorem setText_cases (now : Int) (row : Nat) (text newUuid : String) (h : s.Present s.uuids) :
    s.setText now row text newUuid = s ∨ ∃ old, Renamed old newUuid s (s.setText now row text newUuid) := by
  rw [HistoryModel.setText]
  split
  case h_1 => exact .inl rfl
  case h_2 item hi =>
    split
    case isTrue => exact .inl rfl
    case isFalse =>
      split
      case h_2 => exact .inl rfl
      case h_1 s' aux hs ha =>
        have ⟨items, items', he, hl⟩ := List.exists_append_of_getElem? hi
        have hm : item.uuid ∈ s.main := h.mem_main _ (List.mem_map_of_mem (List.mem_of_getElem? hi))
        have ⟨main, hm⟩ := Hash.mem_iff.mp hm
        rw [renameRow, hm] at hs
        have ⟨hnew, hs⟩ := Option.ite_none_left_eq_some.mp hs
        cases hs
        refine .inr ⟨item.uuid, .changed ⟨?_, hnew, fun uuid => ?_, fun uuid => ?_, rfl, fun key hk => ?_⟩⟩
        · refine ⟨items.map HistoryItem.uuid, items'.map HistoryItem.uuid, ?_, ?_⟩
          · rw [HistoryModel.uuids, he, List.map_append, List.map_cons]
          · rw [HistoryModel.uuids, he, ← hl, List.set_length_append, List.map_append, List.map_cons]
        · exact (AList.mem_insert _).trans (or_congr_right AList.mem_erase)
        · rw [HistoryModel.isItemStarred, Hash.lookup_insert, HistoryModel.isItemStarred, HistoryModel.isItemStarred, hm]
          split
          case isTrue => rfl
          case isFalse =>
            rw [Hash.lookup_erase]
            split <;> rfl
        · cases mem_of_insertAuxAll ha hk with
          | inl hk =>
            have ⟨hk, hn⟩ := mem_deleteAux.mp hk
            exact .inr ⟨fun he => hn (List.mem_singleton.mpr he), hk⟩
          | inr hk => exact .inl hk

-- The other contents are neither those that were there nor those that came.
theorem ne_renamed {old new : String} {above below : List String} (h : s.Present s.uuids) (hr : Renamed old new s s')
    (hu : s.uuids = above ++ old :: below) (hm : uuid ∈ above ++ below) : uuid ≠ old ∧ uuid ≠ new := by
  have hn := h.nodup
  rw [hu] at hn
  have hne : uuid ≠ old := fun he => (List.nodup_middle.mp hn).notMem (he ▸ hm)
  refine ⟨hne, ?_⟩
  rintro rfl
  refine hr.fresh (AList.mem_erase.mpr ⟨hne, h.mem_main uuid ?_⟩)
  rw [hu, List.mem_append, List.mem_cons, or_left_comm, ← List.mem_append]
  exact .inr hm

theorem renamed {old new : String} (h : s.Present s.uuids) (hr : Renamed old new s s') : s'.Present s'.uuids := by
  have ⟨above, below, hu, hu'⟩ := hr.uuids
  have hne (uuid : String) (hm : uuid ∈ above ++ below) := h.ne_renamed hr hu hm
  have hn := h.nodup
  rw [hu] at hn
  rw [hu']
  constructor
  case nodup => exact List.nodup_middle.mpr (List.nodup_cons.mpr ⟨fun hm => (hne new hm).2 rfl, (List.nodup_middle.mp hn).of_cons⟩)
  case mem_main =>
    intro uuid hm
    rw [List.mem_append, List.mem_cons, or_left_comm, ← List.mem_append] at hm
    refine (hr.mem_main uuid).mpr (hm.imp_right fun hm => ⟨(hne uuid hm).1, h.mem_main uuid ?_⟩)
    rw [hu, List.mem_append, List.mem_cons, or_left_comm, ← List.mem_append]
    exact .inr hm

theorem removeRows_self (h : s.Present s.uuids) (now : Int) (row count : Nat) :
    (s.removeRows now row count).Present (s.removeRows now row count).uuids := by
  by_cases hl : row + count ≤ s.items.length
  case neg =>
    rw [HistoryModel.removeRows, if_pos (Nat.lt_of_not_le hl)]
    exact h
  case pos =>
    rw [uuids_removeRows hl]
    have hp := h.perm (removed_append_perm s row count).symm
    have hd := List.disjoint_of_nodup_append hp.nodup
    exact Present.removeRows hl hd (hp.sublist (List.sublist_append_right _ _))

theorem moveRowToTop (h : s.Present s.uuids) (now : Int) (row : Nat) :
    (s.moveRowToTop now row).Present (s.moveRowToTop now row).uuids := by
  cases hi : s.items[row]? with
  | none =>
    rw [HistoryModel.moveRowToTop, hi]
    exact h
  | some item =>
    have hmain : ∀ uuid ∈ s.main, uuid ∈ (s.moveRowToTop now row).main := by
      rw [HistoryModel.moveRowToTop, hi]
      exact fun uuid hm => mem_changed.mpr hm
    rw [uuids_moveRowToTop hi]
    have hu : s.uuids[row]? = some item.uuid := by rw [HistoryModel.uuids, List.getElem?_map, hi, Option.map_some]
    have ⟨hlt, hu⟩ := List.getElem?_eq_some_iff.mp hu
    exact (h.perm (hu ▸ List.getElem_cons_eraseIdx_perm hlt).symm).mono hmain

theorem removeLast (h : s.Present s.uuids) (now : Int) (row count : Nat) :
    (s.removeLast now row count).Present (s.removeLast now row count).uuids := by
  induction row generalizing s count
  case zero =>
    rw [HistoryModel.removeLast]
    exact h
  case succ row ih =>
    cases count with
    | zero => exact h
    | succ count =>
      rw [HistoryModel.removeLast]
      split
      case h_2 => exact ih h _
      case h_1 =>
        split
        case isTrue => exact ih h _
        case isFalse => exact ih (h.removeRows_self now row 1) _

theorem setMaxSize (h : s.Present s.uuids) (now size : Int) :
    (s.setMaxSize now size).Present (s.setMaxSize now size).uuids := by
  rw [HistoryModel.setMaxSize]
  split
  case isTrue => exact h
  case isFalse =>
    dsimp only
    have hs : { s with maxSize := size }.Present s.uuids := ⟨h.nodup, h.mem_main⟩
    split
    case isTrue => exact hs.removeLast _ _ _
    case isFalse => exact hs

theorem clearNonStarredHistory (h : s.Present s.uuids) (now : Int) :
    (s.clearNonStarredHistory now).Present (s.clearNonStarredHistory now).uuids := by
  rw [HistoryModel.clearNonStarredHistory]
  dsimp only
  split
  case isTrue => exact h
  case isFalse =>
    rw [uuids_changed]
    refine ⟨h.nodup.sublist (List.filter_sublist.map _), fun uuid hu => mem_changed.mpr (mem_deleteRows.mpr ?_)⟩
    have ⟨item, hi, he⟩ := List.mem_map.mp hu
    have ⟨hi, hn⟩ := List.mem_filter.mp hi
    exact he ▸ ⟨h.mem_main _ (List.mem_map_of_mem hi), of_decide_eq_true hn⟩

end Present

end Klipper.HistoryModel
