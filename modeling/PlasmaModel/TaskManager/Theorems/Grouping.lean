import PlasmaModel.Lib.Partition
import PlasmaModel.TaskManager.Grouping

namespace TaskManager

variable {QUrl : Type} {urls : QUrls QUrl}

theorem eq_singleton_of_not_isGroup {rows : List Nat} (h : ¬isGroup rows) (hn : rows ≠ []) : ∃ row, rows = [row] := by
  cases rows with
  | nil => cases hn rfl
  | cons row rows => cases rows <;> simp_all [isGroup]

namespace TaskGroupingProxyModel

-- Each source row is in the row map once, and no row of the proxy is left without one.
def Complete (s : TaskGroupingProxyModel QUrl) : Prop :=
  Partitions (List.range s.sourceModel.length) s.rowMap

variable {s s' : TaskGroupingProxyModel QUrl} {l : List Nat} {row i : Nat} {skips breaks : List Nat → Bool}

theorem mapFromSource_item (h : s.mapFromSource i = .item row) : s.rowMap[row]? = some [i] := by
  rw [mapFromSource] at h
  split at h
  case h_1 => cases h
  case h_2 j hj =>
    simp only [Bool.and_eq_true, decide_eq_true_eq, Bool.not_eq_true'] at h
    split at h
    case isFalse => cases h
    case isTrue hc =>
      cases h
      have ⟨hlt, hm, _⟩ := List.findIdx?_eq_some_iff_getElem.mp hj
      rw [List.getElem?_eq_getElem hlt, Option.getD_some] at hc
      have hm := of_decide_eq_true hm
      have ⟨row', heq⟩ := eq_singleton_of_not_isGroup (by simp [hc.2]) (List.ne_nil_of_mem hm)
      rw [heq, List.mem_singleton] at hm
      rw [List.getElem?_eq_getElem hlt, heq, hm]

theorem Complete.mapToSource_mapFromSource (h : s.Complete) (hi : i < s.sourceModel.length) :
    s.mapToSource (s.mapFromSource i) = some i := by
  have ⟨rows, hr, hi'⟩ := h.mem_iff.mp (List.mem_range.mpr hi)
  rw [mapFromSource]
  cases hf : s.rowMap.findIdx? (i ∈ ·) with
  | none => simpa [hi'] using List.findIdx?_eq_none_iff.mp hf _ hr
  | some j =>
    have ⟨hlt, hm, _⟩ := List.findIdx?_eq_some_iff_getElem.mp hf
    have hm := of_decide_eq_true hm
    have hget : s.rowMap[j]?.bind (·[s.rowMap[j].idxOf i]?) = some i := by
      simp [hlt, List.getElem?_eq_getElem (List.idxOf_lt_length_of_mem hm)]
    simp only [List.getElem?_eq_getElem hlt, Option.getD_some] at hget ⊢
    split
    case isTrue hc =>
      simp only [Bool.and_eq_true, decide_eq_true_eq] at hc
      rw [hc.1] at hget
      simp only [mapToSource, List.getElem?_eq_getElem hlt, hget]
      simp [hi]
    case isFalse =>
      simp only [mapToSource, List.getElem?_eq_getElem hlt, hget]
      simp [hi]

theorem breakGroupFor_sourceModel : (s.breakGroupFor row).sourceModel = s.sourceModel := by
  grind [breakGroupFor]

theorem breakGroupFor_partitions (h : Partitions l s.rowMap) : Partitions l (s.breakGroupFor row).rowMap := by
  rw [breakGroupFor]
  split
  case h_1 => exact h
  case h_2 rows hr =>
    split
    case isTrue => exact h.split hr
    case isFalse => exact h

theorem breakGroups_sourceModel : (s.breakGroups breaks i).sourceModel = s.sourceModel := by
  induction i generalizing s
  case zero => rfl
  case succ i ih =>
    rw [breakGroups, ih]
    split
    case isTrue => exact breakGroupFor_sourceModel
    case isFalse => rfl

theorem breakGroups_partitions (h : Partitions l s.rowMap) : Partitions l (s.breakGroups breaks i).rowMap := by
  induction i generalizing s
  case zero => exact h
  case succ i ih =>
    apply ih
    split
    case isTrue => exact breakGroupFor_partitions h
    case isFalse => exact h

theorem Complete.breakGroups (h : s.Complete) : (s.breakGroups breaks i).Complete := by
  rw [Complete, breakGroups_sourceModel]
  exact breakGroups_partitions h

theorem Complete.breakGroupFor (h : s.Complete) : (s.breakGroupFor row).Complete := by
  rw [Complete, breakGroupFor_sourceModel]
  exact breakGroupFor_partitions h

theorem removeRow_partitions (h : Partitions l s.rowMap) (hi : i ∈ l) :
    Partitions (l.erase i) (s.removeRow i).rowMap := by
  have ⟨rows, hr, hi⟩ := h.mem_iff.mp hi
  rw [removeRow]
  cases hf : s.rowMap.findIdx? (i ∈ ·) with
  | none => simpa [hi] using List.findIdx?_eq_none_iff.mp hf _ hr
  | some j =>
    have ⟨hlt, hm, _⟩ := List.findIdx?_eq_some_iff_getElem.mp hf
    have hm := of_decide_eq_true hm
    simp only [List.getElem?_eq_getElem hlt, Option.any_some, decide_eq_true_eq]
    split
    case isTrue hl =>
      have ⟨a, heq⟩ := List.length_eq_one_iff.mp hl
      rw [heq, List.mem_singleton] at hm
      exact h.remove_singleton (by rw [List.getElem?_eq_getElem hlt, heq, hm])
    case isFalse hl => exact h.remove (List.getElem?_eq_getElem hlt) hm hl

theorem removeRow_sourceModel : (s.removeRow i).sourceModel = s.sourceModel := by
  grind [removeRow]

theorem removeRows_sourceModel (is : List Nat) : (is.foldl removeRow s).sourceModel = s.sourceModel := by
  induction is generalizing s
  case nil => rfl
  case cons i is ih => rw [List.foldl_cons, ih, removeRow_sourceModel]

theorem removeRows_partitions {is : List Nat} (h : Partitions l s.rowMap) (hs : is ⊆ l) (hn : is.Nodup) :
    Partitions (l.diff is) (is.foldl removeRow s).rowMap := by
  induction is generalizing s l
  case nil => exact h
  case cons i is ih =>
    rw [List.diff_cons]
    have ⟨hi, hn⟩ := List.nodup_cons.mp hn
    have hs := List.cons_subset.mp hs
    refine ih (removeRow_partitions h hs.1) (fun a ha => ?_) hn
    have hne : a ≠ i := fun heq => hi (heq ▸ ha)
    exact (List.mem_erase_of_ne hne).mpr (hs.2 ha)

section Group

variable [DecidableEq QUrl]

def isGroupable (urls : QUrls QUrl) (s : TaskGroupingProxyModel QUrl) (task : Task QUrl) : Bool :=
  task.isWindow && (s.groupDemandingAttention || !task.isDemandingAttention) && !s.isBlacklisted urls task

-- Rows that a window of the same application may be added to.
def isMatch (urls : QUrls QUrl) (s : TaskGroupingProxyModel QUrl) (task : Task QUrl) (rows : List Nat) : Bool :=
  (s.rep urls rows).isWindow && appsMatch urls task (s.rep urls rows)

theorem tryToGroup_eq : s.tryToGroup urls row =
    if s.isGroupable urls (s.task urls row) then
      (s.rowMap.findIdx? fun rows => rows.head? ≠ some row && s.isMatch urls (s.task urls row) rows).map fun i =>
        { s with rowMap := s.rowMap.modify i (· ++ [row]) }
    else none := by
  simp only [tryToGroup, isGroupable, isMatch, Bool.and_assoc]
  grind

theorem tryToGroup_eq_some (h : s.tryToGroup urls row = some s') :
    ∃ i < s.rowMap.length, s.rowMap[i]? ≠ some [row] ∧ s' = { s with rowMap := s.rowMap.modify i (· ++ [row]) } := by
  rw [tryToGroup_eq] at h
  split at h
  case isFalse => cases h
  case isTrue =>
    have ⟨i, hi, heq⟩ := Option.map_eq_some_iff.mp h
    have ⟨hlt, hp, _⟩ := List.findIdx?_eq_some_iff_getElem.mp hi
    refine ⟨i, hlt, fun hr => ?_, heq.symm⟩
    rw [List.getElem?_eq_getElem hlt, Option.some_inj] at hr
    simp [hr] at hp

theorem tryToGroup_partitions (h : Partitions l s.rowMap) (ht : s.tryToGroup urls row = some s') :
    Partitions (row :: l) s'.rowMap := by
  have ⟨_, hi, _, heq⟩ := tryToGroup_eq_some ht
  exact heq ▸ h.add hi

theorem tryToGroup_eraseIdx_partitions (h : Partitions l s.rowMap) (hi : s.rowMap[i]? = some [row])
    (ht : s.tryToGroup urls row = some s') : Partitions l (s'.rowMap.eraseIdx i) := by
  have ⟨j, hj, hne, heq⟩ := tryToGroup_eq_some ht
  exact heq ▸ h.move hi hj fun hij => hne (hij ▸ hi)

theorem tryToGroup_sourceModel (ht : s.tryToGroup urls row = some s') : s'.sourceModel = s.sourceModel := by
  have ⟨_, _, _, heq⟩ := tryToGroup_eq_some ht
  rw [heq]

theorem groupRow_sourceModel : (s.groupRow urls skips i).sourceModel = s.sourceModel := by
  rw [groupRow]
  split
  case h_1 => rfl
  case h_2 rows _ =>
    split
    case isTrue => rfl
    case isFalse =>
      split
      case h_1 => rfl
      case h_2 s' hs =>
        have ⟨_, _, hs⟩ := Option.bind_eq_some_iff.mp hs
        exact (tryToGroup_sourceModel hs : s'.sourceModel = s.sourceModel)

theorem groupRows_sourceModel : (s.groupRows urls skips i).sourceModel = s.sourceModel := by
  induction i generalizing s
  case zero => rfl
  case succ i ih => rw [groupRows, ih, groupRow_sourceModel]

theorem groupRow_partitions (h : Partitions l s.rowMap) : Partitions l (s.groupRow urls isGroup i).rowMap := by
  rw [groupRow]
  split
  case h_1 => exact h
  case h_2 rows hr =>
    split
    case isTrue => exact h
    case isFalse hg =>
      have ⟨row, heq⟩ := eq_singleton_of_not_isGroup hg (h.nonempty _ (List.mem_of_getElem? hr))
      subst heq
      split
      case h_1 => exact h
      case h_2 s' hs => exact tryToGroup_eraseIdx_partitions h hr hs

theorem groupRows_partitions (h : Partitions l s.rowMap) : Partitions l (s.groupRows urls isGroup i).rowMap := by
  induction i generalizing s
  case zero => exact h
  case succ i ih => exact ih (groupRow_partitions h)

theorem checkGrouping_sourceModel : (s.checkGrouping urls).sourceModel = s.sourceModel := by
  rw [checkGrouping]
  split
  case isTrue => exact groupRows_sourceModel
  case isFalse => exact breakGroups_sourceModel

theorem Complete.checkGrouping (h : s.Complete) : (s.checkGrouping urls).Complete := by
  rw [Complete, checkGrouping_sourceModel, TaskGroupingProxyModel.checkGrouping]
  split
  case isTrue => exact groupRows_partitions h
  case isFalse => exact breakGroups_partitions h

theorem insertRow_sourceModel {shouldGroup : Bool} :
    (s.insertRow urls shouldGroup i).sourceModel = s.sourceModel := by
  rw [insertRow]
  split
  case h_1 s' hs =>
    split at hs
    case isTrue => exact tryToGroup_sourceModel hs
    case isFalse => cases hs
  case h_2 => rfl

theorem insertRow_partitions {shouldGroup : Bool} (h : Partitions l s.rowMap) :
    Partitions (i :: l) (s.insertRow urls shouldGroup i).rowMap := by
  rw [insertRow]
  split
  case h_1 s' hs =>
    split at hs
    case isTrue => exact tryToGroup_partitions h hs
    case isFalse => cases hs
  case h_2 => exact h.append_singleton

theorem insertRows_sourceModel {shouldGroup : Bool} (is : List Nat) :
    (is.foldl (insertRow urls shouldGroup) s).sourceModel = s.sourceModel := by
  induction is generalizing s
  case nil => rfl
  case cons i is ih => rw [List.foldl_cons, ih, insertRow_sourceModel]

theorem insertRows_partitions {shouldGroup : Bool} (is : List Nat) (h : Partitions l s.rowMap) :
    Partitions (is ++ l) (is.foldl (insertRow urls shouldGroup) s).rowMap := by
  induction is generalizing s l
  case nil => exact h
  case cons i is ih => exact (ih (insertRow_partitions h)).of_perm List.perm_middle

theorem Complete.sourceRowsInserted {start : Nat} {tasks : List (Task QUrl)} (h : s.Complete)
    (hs : start ≤ s.sourceModel.length) : (s.sourceRowsInserted urls start tasks).Complete := by
  have hl : (s.sourceModel.take start ++ tasks ++ s.sourceModel.drop start).length =
      s.sourceModel.length + tasks.length := by
    simp
    omega
  apply Complete.checkGrouping
  rw [Complete, insertRows_sourceModel]
  simp only [adjustMap, hl]
  exact (insertRows_partitions _ (h.map _)).of_perm (List.range_insert hs)

theorem Complete.sourceRowsRemoved {start count : Nat} (h : s.Complete)
    (hs : start + count ≤ s.sourceModel.length) : (s.sourceRowsRemoved urls start count).Complete := by
  apply Complete.checkGrouping
  have hr : List.range' start count ⊆ List.range s.sourceModel.length := fun a ha => by
    simp only [List.mem_range'_1, List.mem_range] at ha ⊢
    omega
  have hl : (s.sourceModel.take start ++ s.sourceModel.drop (start + count)).length =
      s.sourceModel.length - count := by
    simp
    omega
  simp only [Complete, adjustMap, removeRows_sourceModel, hl]
  exact ((removeRows_partitions h hr List.nodup_range').map _).of_perm (List.range_remove hs)

theorem rebuildMap_complete {tasks : List (Task QUrl)} : (s.rebuildMap urls tasks).Complete :=
  Complete.checkGrouping (Partitions.singletons _)

theorem Complete.dataChangedRow {roles : List Role} (h : s.Complete) : (s.dataChangedRow urls roles i).Complete := by
  rw [TaskGroupingProxyModel.dataChangedRow]
  split
  case h_2 => exact h
  case h_1 row hr =>
    split
    case isFalse => exact h
    case isTrue =>
      split
      case h_2 => exact h
      case h_1 s' hs =>
        split at hs
        case isFalse => cases hs
        case isTrue =>
          simp only [Complete, tryToGroup_sourceModel hs]
          exact tryToGroup_eraseIdx_partitions h (mapFromSource_item hr) hs

theorem Complete.sourceDataChanged {topLeft : Nat} {tasks : List (Task QUrl)} {roles : List Role} (h : s.Complete)
    (hs : topLeft + tasks.length ≤ s.sourceModel.length) :
    (s.sourceDataChanged urls topLeft tasks roles).Complete := by
  rw [TaskGroupingProxyModel.sourceDataChanged]
  refine List.foldlRecOn _ _ ?_ fun _ h _ _ => h.dataChangedRow
  have hl : (s.sourceModel.take topLeft ++ tasks ++ s.sourceModel.drop (topLeft + tasks.length)).length =
      s.sourceModel.length := by
    simp
    omega
  rw [Complete, hl]
  exact h

theorem Complete.setGroupMode {mode : GroupMode} (h : s.Complete) : (s.setGroupMode urls mode).Complete := by
  rw [TaskGroupingProxyModel.setGroupMode]
  split
  case isTrue =>
    have hc : { s with groupMode := mode }.Complete := h
    exact hc.checkGrouping
  case isFalse => exact h

theorem Complete.setGroupDemandingAttention {group : Bool} (h : s.Complete) :
    (s.setGroupDemandingAttention urls group).Complete := by
  rw [TaskGroupingProxyModel.setGroupDemandingAttention]
  split
  case isTrue =>
    have hc : { s with groupDemandingAttention := group }.Complete := h
    exact hc.checkGrouping
  case isFalse => exact h

theorem Complete.setWindowTasksThreshold {threshold : Int} (h : s.Complete) :
    (s.setWindowTasksThreshold urls threshold).Complete := by
  rw [TaskGroupingProxyModel.setWindowTasksThreshold]
  split
  case isTrue =>
    have hc : { s with windowTasksThreshold := threshold }.Complete := h
    exact hc.checkGrouping
  case isFalse => exact h

theorem Complete.setBlacklistedAppIds {list : List String} (h : s.Complete) :
    (s.setBlacklistedAppIds urls list).Complete := by
  rw [TaskGroupingProxyModel.setBlacklistedAppIds]
  split
  case isTrue =>
    have hc : { s with blacklistedAppIds := .ofList list }.Complete := h
    exact hc.checkGrouping.breakGroups
  case isFalse => exact h

theorem Complete.setBlacklistedLauncherUrls {list : List String} (h : s.Complete) :
    (s.setBlacklistedLauncherUrls urls list).Complete := by
  rw [TaskGroupingProxyModel.setBlacklistedLauncherUrls]
  split
  case isTrue =>
    have hc : { s with blacklistedLauncherUrls := .ofList list }.Complete := h
    exact hc.checkGrouping.breakGroups
  case isFalse => exact h

end Group

end TaskGroupingProxyModel
end TaskManager
