import PlasmaModel.Lib.Runs
import PlasmaModel.Notifications.Theorems.Grouping

namespace NotificationManager

-- The number of children of each row of the top level.
def rowCounts (m : RowMap) : List Nat :=
  m.map fun rows => if rows.length = 1 then 0 else rows.length

-- There are as many more rows as announced below the parent, at the place that was announced, and no others.
def Inserts (parent : ProxyIndex) (first last : Nat) (m m' : RowMap) : Prop :=
  match parent with
  | .invalid => first ≤ m.length ∧ ∃ new, new.length = last + 1 - first ∧
      rowCounts m' = (rowCounts m).take first ++ new ++ (rowCounts m).drop first
  | .item row => first ≤ rowCount m parent ∧ row < m.length ∧
      rowCounts m' = (rowCounts m).modify row (· + (last + 1 - first))
  | .child _ _ => False

def Siblings (m : RowMap) : ProxyIndex → ProxyIndex → Prop
  | .item i, .item j => i < m.length ∧ j < m.length
  | .child p i, .child q j => p = q ∧ i < rowCount m (.item p) ∧ j < rowCount m (.item p)
  | _, _ => False

-- What an observer of the model is in the middle of.
inductive Phase
  | idle
  | resetting
  | inserting (parent : ProxyIndex) (first last : Nat)
  | removing (parent : ProxyIndex) (first last : Nat)

-- The signals that may follow, from the rows at the last one to those at this one.
inductive Follows (m now : RowMap) : Phase → Signal → Phase → Prop
  | reset : rowCounts now = rowCounts m → Follows m now .idle .beginResetModel .resetting
  | resetDone : Follows m now .resetting .endResetModel .idle
  | insert {parent first last} : rowCounts now = rowCounts m → first ≤ last →
      Follows m now .idle (.beginInsertRows parent first last) (.inserting parent first last)
  | inserted {parent first last} : Inserts parent first last m now →
      Follows m now (.inserting parent first last) .endInsertRows .idle
  | remove {parent first last} : rowCounts now = rowCounts m → first ≤ last →
      Follows m now .idle (.beginRemoveRows parent first last) (.removing parent first last)
  | removed {parent first last} : Inserts parent first last now m →
      Follows m now (.removing parent first last) .endRemoveRows .idle
  | changed {topLeft bottomRight} : rowCounts now = rowCounts m → Siblings now topLeft bottomRight →
      Follows m now .idle (.dataChanged topLeft bottomRight) .idle

def Announced (phase : Phase) (m : RowMap) : List (Signal × RowMap) → RowMap → Prop
  | [], m' => phase = .idle ∧ rowCounts m' = rowCounts m
  | (signal, now) :: rest, m' => ∃ phase', Follows m now phase signal phase' ∧ Announced phase' now rest m'

variable {m m₁ m₂ m' now : RowMap} {rest : List (Signal × RowMap)} {parent topLeft bottomRight : ProxyIndex}
variable {first last i j : Nat}

theorem announced_congr (h : rowCounts m₁ = rowCounts m₂) :
    Announced .idle m₁ rest m' ↔ Announced .idle m₂ rest m' := by
  cases rest with
  | nil => rw [Announced, Announced, h]
  | cons entry rest =>
    cases entry
    refine exists_congr fun phase' => and_congr_left fun _ => ⟨fun hf => ?_, fun hf => ?_⟩
    · cases hf with
      | reset hc => exact .reset (hc.trans h)
      | insert hc hle => exact .insert (hc.trans h) hle
      | remove hc hle => exact .remove (hc.trans h) hle
      | changed hc hs => exact .changed (hc.trans h) hs
    · cases hf with
      | reset hc => exact .reset (hc.trans h.symm)
      | insert hc hle => exact .insert (hc.trans h.symm) hle
      | remove hc hle => exact .remove (hc.trans h.symm) hle
      | changed hc hs => exact .changed (hc.trans h.symm) hs

theorem announced_insert (hle : first ≤ last) (h : Inserts parent first last m now) :
    Announced .idle m ((.beginInsertRows parent first last, m) :: (.endInsertRows, now) :: rest) m' ↔
      Announced .idle now rest m' := by
  constructor
  case mp =>
    intro ⟨_, hb, _, he, hr⟩
    cases hb
    cases he
    exact hr
  case mpr => exact fun hr => ⟨_, .insert rfl hle, _, .inserted h, hr⟩

theorem announced_remove (hle : first ≤ last) (h : Inserts parent first last now m) :
    Announced .idle m ((.beginRemoveRows parent first last, m) :: (.endRemoveRows, now) :: rest) m' ↔
      Announced .idle now rest m' := by
  constructor
  case mp =>
    intro ⟨_, hb, _, he, hr⟩
    cases hb
    cases he
    exact hr
  case mpr => exact fun hr => ⟨_, .remove rfl hle, _, .removed h, hr⟩

theorem announced_changed : Announced .idle m ((.dataChanged topLeft bottomRight, m) :: rest) m' ↔
    Siblings m topLeft bottomRight ∧ Announced .idle m rest m' := by
  constructor
  case mp =>
    intro ⟨_, hc, hr⟩
    cases hc with
    | changed _ hs => exact ⟨hs, hr⟩
  case mpr => exact fun ⟨hs, hr⟩ => ⟨_, .changed rfl hs, hr⟩

namespace NotificationGroupingProxyModel

variable {s s' : NotificationGroupingProxyModel} {row : Nat} {rows : List Nat} {Q : Prop} {silent : Bool}

-- The signals so far are as they should be exactly if `Q` holds, and they lead to the rows that there are.
def Tracks (m : RowMap) (Q : Prop) (s : NotificationGroupingProxyModel) : Prop :=
  ∀ rest m', Announced .idle m (s.signals ++ rest) m' ↔ Q ∧ Announced .idle s.rowMap rest m'

namespace Tracks

theorem start (h : s.signals = []) : Tracks s.rowMap True s := by
  intro rest m'
  rw [h, List.nil_append, true_and]

theorem done (h : Tracks m Q s) : Announced .idle m s.signals s.rowMap ↔ Q := by
  have h := h [] s.rowMap
  rw [List.append_nil] at h
  exact h.trans (and_iff_left ⟨rfl, rfl⟩)

theorem adjust (h : Tracks m Q s) (hs : s'.signals = s.signals) (hc : rowCounts s'.rowMap = rowCounts s.rowMap) :
    Tracks m Q s' := by
  intro rest m'
  rw [hs, h, announced_congr hc]

theorem insert (parent : ProxyIndex) (first last : Nat) (h : Tracks m Q s) (hs : s'.signals =
    s.signals ++ [(.beginInsertRows parent first last, s.rowMap), (.endInsertRows, s'.rowMap)])
    (hle : first ≤ last) (hi : Inserts parent first last s.rowMap s'.rowMap) : Tracks m Q s' := by
  intro rest m'
  rw [hs, List.append_assoc, h]
  exact and_congr_right fun _ => announced_insert hle hi

theorem remove (parent : ProxyIndex) (first last : Nat) (h : Tracks m Q s) (hs : s'.signals =
    s.signals ++ [(.beginRemoveRows parent first last, s.rowMap), (.endRemoveRows, s'.rowMap)])
    (hle : first ≤ last) (hi : Inserts parent first last s'.rowMap s.rowMap) : Tracks m Q s' := by
  intro rest m'
  rw [hs, List.append_assoc, h]
  exact and_congr_right fun _ => announced_remove hle hi

theorem changed (h : Tracks m Q s) :
    Tracks m (Q ∧ Siblings s.rowMap topLeft bottomRight) (s.emit (.dataChanged topLeft bottomRight)) := by
  intro rest m'
  rw [emit, List.append_assoc, h, and_assoc]
  exact and_congr_right fun _ => announced_changed

theorem changed_item (h : Tracks m Q s) (hi : i < s.rowMap.length) :
    Tracks m Q (s.emit (.dataChanged (.item i) (.item i))) := by
  have hq : (Q ∧ Siblings s.rowMap (.item i) (.item i)) ↔ Q := and_iff_left ⟨hi, hi⟩
  intro rest m'
  rw [h.changed, hq]

end Tracks

theorem index_item (h : i < s.rowMap.length) : s.index i none = .item i :=
  if_pos h

-- One list of the map becomes another one.
theorem inserts_item {m₁ m₂ : RowMap} {rows rows' : List Nat}
    (hn : (if rows'.length = 1 then 0 else rows'.length) = (if rows.length = 1 then 0 else rows.length) + (last + 1 - first))
    (hf : first ≤ if rows.length = 1 then 0 else rows.length) :
    Inserts (.item m₁.length) first last (m₁ ++ rows :: m₂) (m₁ ++ rows' :: m₂) := by
  have hlen : m₁.length = (rowCounts m₁).length := (List.length_map _).symm
  refine ⟨?_, by simp, ?_⟩
  · rw [rowCount, List.getElem?_append_right (Nat.le_refl _), Nat.sub_self, List.getElem?_cons_zero]
    exact hf
  · rw [rowCounts, List.map_append, List.map_cons, hn, rowCounts, List.map_append, List.map_cons, hlen]
    exact (List.modify_length_append (· + (last + 1 - first))).symm

theorem inserts_eraseIdx (hi : m[i]? = some rows) : Inserts .invalid i i (m.eraseIdx i) m := by
  have ⟨m₁, m₂, he, hl⟩ := List.exists_append_of_getElem? hi
  subst he hl
  rw [List.eraseIdx_length_append]
  refine ⟨by simp, rowCounts [rows], by simp [rowCounts], ?_⟩
  simp [rowCounts]

namespace Tracks

theorem removeRow (h : Tracks m Q s) (hi : s.rowMap[i]? = some rows) : Tracks m Q (s.removeRow i) :=
  h.remove .invalid i i (by simp [NotificationGroupingProxyModel.removeRow, emit]) (Nat.le_refl i) (inserts_eraseIdx hi)

theorem tryToGroup (h : Tracks m Q s) (hn : ∀ rows ∈ s.rowMap, rows ≠ []) (ht : s.tryToGroup row false = some s') :
    Tracks m Q s' := by
  rw [NotificationGroupingProxyModel.tryToGroup] at ht
  split at ht
  case h_1 => cases ht
  case h_2 i hi =>
    obtain ⟨hlt, _⟩ := List.findIdx?_eq_some_iff_getElem.mp hi
    have hget := List.getElem?_eq_getElem hlt
    have hpos := List.length_pos_iff.mpr (hn _ (List.getElem_mem hlt))
    generalize s.rowMap[i] = rows at hget hpos
    obtain ⟨m₁, m₂, he, hl⟩ := List.exists_append_of_getElem? hget
    simp only [hget, Option.getD_some, index_item hlt, Bool.false_eq_true, if_false] at ht
    cases ht
    apply Tracks.changed_item
    case hi =>
      rw [emit, List.length_modify]
      exact hlt
    case h =>
      have hmap : s.rowMap.modify i (· ++ [row]) = m₁ ++ (rows ++ [row]) :: m₂ := by
        rw [he, ← hl, List.modify_length_append]
      have hi {first last : Nat} (hn : (if (rows ++ [row]).length = 1 then 0 else (rows ++ [row]).length) =
          (if rows.length = 1 then 0 else rows.length) + (last + 1 - first))
          (hf : first ≤ if rows.length = 1 then 0 else rows.length) :
          Inserts (.item i) first last s.rowMap (s.rowMap.modify i (· ++ [row])) := by
        rw [hmap, he, ← hl]
        exact inserts_item hn hf
      by_cases hone : rows.length = 1
      case pos =>
        refine h.insert (.item i) 0 1 ?_ (Nat.zero_le 1) (hi ?_ (Nat.zero_le _))
        · simp [hone, emit]
        · simp [hone]
      case neg =>
        have hsucc : rows.length + 1 ≠ 1 := by omega
        refine h.insert (.item i) rows.length rows.length ?_ (Nat.le_refl _) (hi ?_ ?_)
        · simp [hone, emit]
        · rw [List.length_append, List.length_singleton, if_neg hsucc, if_neg hone, Nat.add_sub_cancel_left]
        · simp [hone]

theorem insertSourceRow (h : Tracks m Q s) (hn : ∀ rows ∈ s.rowMap, rows ≠ []) : Tracks m Q (s.insertSourceRow i) := by
  rw [NotificationGroupingProxyModel.insertSourceRow]
  split
  case h_1 s' ht => exact h.tryToGroup hn ht
  case h_2 =>
    refine h.insert .invalid s.rowMap.length s.rowMap.length ?_ (Nat.le_refl _) ⟨Nat.le_refl _, [0], by simp, ?_⟩
    · simp [emit]
    · have hlen : (rowCounts s.rowMap).length ≤ s.rowMap.length := Nat.le_of_eq (List.length_map _)
      rw [List.take_of_length_le hlen, List.drop_eq_nil_of_le hlen, List.append_nil]
      exact List.map_append

theorem siblings_children (hi : s.rowMap[j]? = some rows) (hl : 1 < rows.length) :
    Siblings s.rowMap (s.index 0 (some j)) (s.index (s.rowMap.length - 1) (some j)) ↔ s.rowMap.length ≤ rows.length := by
  have ⟨hlt, _⟩ := List.getElem?_eq_some_iff.mp hi
  have hcount : rowCount s.rowMap (.item j) = rows.length := by
    rw [rowCount, hi]
    exact if_neg (by omega)
  have hfirst : s.index 0 (some j) = .child j 0 := by
    rw [index, hi]
    exact if_pos (decide_eq_true (by omega))
  rw [hfirst, index, hi]
  dsimp only [Option.any_some]
  split
  case isTrue h =>
    have h := of_decide_eq_true h
    rw [Siblings, hcount]
    exact iff_of_true ⟨rfl, by omega, h⟩ (by omega)
  case isFalse h =>
    have h := of_decide_eq_false (Bool.not_eq_true _ ▸ h)
    rw [if_pos (by omega)]
    exact iff_of_false id (by omega)

-- The last signal about the children takes the number of rows for the number of children.
theorem removeSourceRow {m₁ m₂ : RowMap} (h : Tracks m Q s) (hr : s.Removes i j m₁ rows m₂) :
    Tracks m (Q ∧ (2 < rows.length → s.rowMap.length < rows.length)) (s.removeSourceRow i) := by
  have hget := hr.getElem?
  have ⟨hlt, _⟩ := List.getElem?_eq_some_iff.mp hget
  have hpos := List.length_pos_of_mem hr.mem
  have hidx := List.idxOf_lt_length_of_mem hr.mem
  have hq (hn : ¬2 < rows.length) : (Q ∧ (2 < rows.length → s.rowMap.length < rows.length)) = Q :=
    propext (and_iff_left fun h => (hn h).elim)
  rw [NotificationGroupingProxyModel.removeSourceRow, hr.find]
  dsimp only
  rw [hget, Option.getD_some, index_item hlt]
  split
  case isTrue h1 =>
    rw [hq (by omega)]
    exact h.removeRow hget
  case isFalse h1 =>
    have hlen := List.length_eraseIdx_of_lt hidx
    have hmap : s.rowMap.modify j (·.eraseIdx (rows.idxOf i)) = m₁ ++ rows.eraseIdx (rows.idxOf i) :: m₂ := by
      rw [hr.rowMap, ← hr.length, List.modify_length_append]
    have hi {first last : Nat} (hn : rows.length =
        (if rows.length - 1 = 1 then 0 else rows.length - 1) + (last + 1 - first))
        (hf : first ≤ if rows.length - 1 = 1 then 0 else rows.length - 1) :
        Inserts (.item j) first last (s.rowMap.modify j (·.eraseIdx (rows.idxOf i))) s.rowMap := by
      rw [hmap, hr.rowMap, ← hr.length]
      apply inserts_item
      · rw [hlen, if_neg h1]
        exact hn
      · rw [hlen]
        exact hf
    split
    case isTrue h2 =>
      rw [hq (by omega)]
      apply Tracks.changed_item
      case hi =>
        rw [emit, List.length_modify]
        exact hlt
      case h =>
        refine h.remove (.item j) 0 1 ?_ (Nat.zero_le 1) (hi (by simp [h2]) (Nat.zero_le _))
        simp [emit]
    case isFalse h2 =>
      have hchild : rows.length - 1 ≠ 1 := by omega
      have hremoved : Tracks m Q ({ s.emit (.beginRemoveRows (.item j) (rows.idxOf i) (rows.idxOf i)) with
          rowMap := s.rowMap.modify j (·.eraseIdx (rows.idxOf i)) }.emit .endRemoveRows) := by
        refine h.remove (.item j) (rows.idxOf i) (rows.idxOf i) (by simp [emit]) (Nat.le_refl _) (hi ?_ ?_)
        · rw [if_neg hchild]
          omega
        · rw [if_neg hchild]
          omega
      have hitem := hremoved.changed_item (i := j) (by rw [emit, List.length_modify]; exact hlt)
      generalize hs : (({ s.emit (.beginRemoveRows (.item j) (rows.idxOf i) (rows.idxOf i)) with
        rowMap := s.rowMap.modify j (·.eraseIdx (rows.idxOf i)) }.emit .endRemoveRows).emit
          (.dataChanged (.item j) (.item j))) = s₃ at hitem
      have hrows : s₃.rowMap = s.rowMap.modify j (·.eraseIdx (rows.idxOf i)) := hs ▸ rfl
      have hget₃ : s₃.rowMap[j]? = some (rows.eraseIdx (rows.idxOf i)) := by
        rw [hrows, List.getElem?_modify_eq, hget]
        rfl
      have hsib := @siblings_children j s₃ _ hget₃ (by omega)
      have hlen₃ : s₃.rowMap.length = s.rowMap.length := by rw [hrows, List.length_modify]
      have hiff : (s₃.rowMap.length ≤ (rows.eraseIdx (rows.idxOf i)).length) ↔
          (2 < rows.length → s.rowMap.length < rows.length) := by omega
      have hall := @Tracks.changed _ (s₃.index 0 (some j)) (s₃.index (s₃.rowMap.length - 1) (some j)) s₃ Q hitem
      rw [propext (hsib.trans hiff)] at hall
      exact hall

end Tracks

theorem Removes.forall_iff {m₁ m₂ : RowMap} (hr : s.Removes i j m₁ rows m₂) (P : List Nat → Prop) :
    (∀ rows ∈ s.rowMap, i ∈ rows → P rows) ↔ P rows := by
  constructor
  case mp => exact fun h => h rows (List.mem_of_getElem? hr.getElem?) hr.mem
  case mpr =>
    intro h rows' hm hi
    rw [hr.rowMap, List.mem_append, List.mem_cons, or_left_comm, ← List.mem_append] at hm
    cases hm with
    | inl he => exact he ▸ h
    | inr hm => exact (hr.others rows' hm hi).elim

-- Whenever a row leaves a group of at least two others, these are as many as there are rows on the top level.
def LeavesEnough : List Nat → RowMap → Prop
  | [], _ => True
  | i :: is, m =>
    (∀ rows ∈ m, i ∈ rows → 2 < rows.length → m.length < rows.length) ∧ LeavesEnough is (keepRows (· ≠ i) m)

namespace Tracks

variable {l is : List Nat}

theorem insertSourceRows (h : Tracks m Q s) (hg : Grouped s.Alike l s.rowMap) (hn : is.Nodup) (hd : is.Disjoint l) :
    Tracks m Q (is.foldl NotificationGroupingProxyModel.insertSourceRow s) := by
  induction is generalizing s l
  case nil => exact h
  case cons i is ih =>
    have ⟨hi, hn⟩ := List.nodup_cons.mp hn
    have ⟨hout, hd⟩ := List.disjoint_cons_left.mp hd
    have hfirst := insertSourceRow_grouped hg hout
    rw [← alike_congr insertSourceRow_sourceModel] at hfirst
    exact ih (h.insertSourceRow hg.partitions.nonempty) hfirst hn (List.disjoint_cons_right.mpr ⟨hi, hd⟩)

theorem removeSourceRows (h : Tracks m Q s) (hg : Grouped s.Alike l s.rowMap) (hn : l.Nodup) (hs : is ⊆ l)
    (hd : is.Nodup) :
    Tracks m (Q ∧ LeavesEnough is s.rowMap) (is.foldl NotificationGroupingProxyModel.removeSourceRow s) := by
  induction is generalizing s l Q
  case nil =>
    rw [LeavesEnough, and_true]
    exact h
  case cons i is ih =>
    have ⟨hi, hs⟩ := List.cons_subset.mp hs
    have ⟨hout, hd⟩ := List.nodup_cons.mp hd
    have ⟨j, m₁, rows, m₂, hr⟩ := exists_removes hg.partitions hn hi
    have ⟨hrow, hgrouped⟩ := removeSourceRow_grouped hg hn hi
    rw [← alike_congr removeSourceRow_sourceModel] at hgrouped
    have hrest : is ⊆ l.filter (· ≠ i) := fun a ha =>
      List.mem_filter.mpr ⟨hs ha, decide_eq_true fun he => hout (he ▸ ha)⟩
    have hall := ih (h.removeSourceRow hr) hgrouped (hn.filter _) hrest hd
    rw [hrow, and_assoc, ← hr.forall_iff fun rows => 2 < rows.length → s.rowMap.length < rows.length] at hall
    exact hall

end Tracks

theorem rowCounts_adjustMap (anchor : Nat) (delta : Int) (s : NotificationGroupingProxyModel) :
    rowCounts (s.adjustMap anchor delta).rowMap = rowCounts s.rowMap := by
  rw [adjustMap_map, rowCounts, rowCounts, List.map_map]
  refine List.map_congr_left fun rows _ => ?_
  rw [Function.comp_apply, List.length_map]

variable {start count : Nat} {applications : List Application}

theorem insertRows_announced (h : s.Groups) (hs : start ≤ s.sourceModel.length) (hsig : s.signals = []) :
    Announced .idle s.rowMap (s.insertRows start applications).signals (s.insertRows start applications).rowMap := by
  have hgrown : Tracks s.rowMap True (s.grown start applications) :=
    (Tracks.start hsig).adjust rfl (rowCounts_adjustMap _ _ _)
  rw [h.insertRows_eq hs]
  exact (hgrown.insertSourceRows (h.grown_grouped hs) List.nodup_range'
    (List.disjoint_inserted _ _ _)).done.mpr trivial

theorem removeRows_announced_iff (h : s.Groups) (hs : first + count ≤ s.sourceModel.length) (hsig : s.signals = []) :
    Announced .idle s.rowMap (s.removeRows first count).signals (s.removeRows first count).rowMap ↔
      LeavesEnough (List.range' first count) s.rowMap := by
  have hsub : List.range' first count ⊆ List.range s.sourceModel.length := fun a ha => by
    have := List.mem_range'_1.mp ha
    exact List.mem_range.mpr (by omega)
  have hremoved := (Tracks.start hsig).removeSourceRows h List.nodup_range hsub List.nodup_range'
  have hshrunk : Tracks s.rowMap _ (s.shrunk first count) := hremoved.adjust rfl (rowCounts_adjustMap _ _ _)
  rw [h.removeRows_eq hs, hshrunk.done, true_and]

theorem tryToGroup_silent (ht : s.tryToGroup row true = some s') : s'.signals = s.signals := by
  rw [tryToGroup] at ht
  split at ht
  case h_1 => cases ht
  case h_2 =>
    cases ht
    rfl

-- Rows that are grouped while the map is built anew are announced as removed.
theorem checkRow_silent (i : Nat) (s : NotificationGroupingProxyModel) : s.checkRow true i = s ∨
    ∃ now rest, (s.checkRow true i).signals = s.signals ++ (.beginRemoveRows .invalid i i, now) :: rest := by
  rw [checkRow]
  split
  case h_1 => exact .inl rfl
  case h_2 rows _ =>
    split
    case isTrue => exact .inl rfl
    case isFalse =>
      split
      case h_1 => exact .inl rfl
      case h_2 s' hs =>
        obtain ⟨_, _, ht⟩ := Option.bind_eq_some_iff.mp hs
        refine .inr ⟨s'.rowMap, [(.endRemoveRows, s'.rowMap.eraseIdx i)], ?_⟩
        rw [removeRow, emit, emit, tryToGroup_silent ht, List.append_assoc]
        rfl

theorem checkRows_silent (i : Nat) (s : NotificationGroupingProxyModel) : s.checkRows true i = s ∨
    ∃ j now rest, (s.checkRows true i).signals = s.signals ++ (.beginRemoveRows .invalid j j, now) :: rest := by
  induction i generalizing s
  case zero => exact .inl rfl
  case succ i ih =>
    rw [checkRows]
    cases checkRow_silent i s with
    | inl he =>
      rw [he]
      exact ih s
    | inr hr =>
      obtain ⟨now, rest, he⟩ := hr
      refine .inr ?_
      cases ih (s.checkRow true i) with
      | inl hi =>
        rw [hi]
        exact ⟨i, now, rest, he⟩
      | inr hi =>
        obtain ⟨j, now', rest', hi⟩ := hi
        exact ⟨i, now, rest ++ (.beginRemoveRows .invalid j j, now') :: rest', by rw [hi, he, List.append_assoc]; rfl⟩

theorem resetSource_announced_iff (applications : List Application) (hsig : s.signals = []) :
    Announced .idle s.rowMap (s.resetSource applications).signals (s.resetSource applications).rowMap ↔
      applications.Pairwise fun a b => appsMatch a b = false := by
  let s₂ : NotificationGroupingProxyModel :=
    { sourceModel := applications, rowMap := (List.range applications.length).map ([·])
      signals := [(.beginResetModel, s.rowMap)] }
  have hreset : s.resetSource applications = (s₂.checkRows true s₂.rowMap.length).emit .endResetModel := by
    cases s
    cases hsig
    rfl
  have hgrouped : Grouped s₂.Alike (List.range applications.length) (s₂.checkRows true s₂.rowMap.length).rowMap :=
    checkRows_grouped (GroupedFrom.singletons _ _) List.nodup_range
  rw [hreset]
  refine Iff.trans ?_ (@singletons_grouped_iff s₂)
  cases checkRows_silent s₂.rowMap.length s₂ with
  | inl he =>
    rw [he] at hgrouped ⊢
    exact iff_of_true ⟨_, .reset rfl, _, .resetDone, rfl, rfl⟩ hgrouped
  | inr hr =>
    obtain ⟨j, now, rest, he⟩ := hr
    refine iff_of_false ?_ fun hg => ?_
    · rw [emit, he]
      rintro ⟨_, hb, _, hf, _⟩
      cases hb
      cases hf
    · rw [checkRows_of_grouped hg] at he
      have hlen := congrArg List.length he
      simp at hlen

-- What happens to the source.
inductive SourceEvent
  | reset (applications : List Application)
  | insertRows (start : Nat) (applications : List Application)
  | removeRows (first count : Nat)

-- The signals of each event are looked at on their own.
def step (s : NotificationGroupingProxyModel) : SourceEvent → Option NotificationGroupingProxyModel
  | .reset applications => some ({ s with signals := [] }.resetSource applications)
  | .insertRows start applications =>
    if start ≤ s.sourceModel.length then some ({ s with signals := [] }.insertRows start applications) else none
  | .removeRows first count =>
    if first + count ≤ s.sourceModel.length then some ({ s with signals := [] }.removeRows first count) else none

-- The map holds each row of the source once, and those that match together.
structure Partitioned (s : NotificationGroupingProxyModel) : Prop where
  partitions : Partitions (List.range s.sourceModel.length) s.rowMap
  share_iff  : ∀ a b, a < s.sourceModel.length → b < s.sourceModel.length → a ≠ b →
    ((∃ rows ∈ s.rowMap, a ∈ rows ∧ b ∈ rows) ↔ appsMatch (s.application a) (s.application b) = true)

def AnnouncesRows (s : NotificationGroupingProxyModel) (event : SourceEvent) : Prop :=
  ∀ s', s.step event = some s' → s'.Partitioned ∧ Announced .idle s.rowMap s'.signals s'.rowMap

-- No two rows are grouped while the map is built anew, and groups that lose a row are left with enough others.
def AnnouncesSafely (s : NotificationGroupingProxyModel) : SourceEvent → Prop
  | .reset applications => applications.Pairwise fun a b => appsMatch a b = false
  | .insertRows _ _ => True
  | .removeRows first count => LeavesEnough (List.range' first count) s.rowMap

theorem Groups.partitioned (h : s.Groups) : s.Partitioned where
  partitions := h.partitions
  share_iff _ _ ha hb hne := h.share_iff alike_symm (List.mem_range.mpr ha) (List.mem_range.mpr hb) hne

theorem Groups.step {event : SourceEvent} (h : s.Groups) (hs : s.step event = some s') :
    (s.AnnouncesRows event ↔ s.AnnouncesSafely event) ∧ s'.Groups := by
  have hstart : { s with signals := [] }.Groups := h
  have hiff : s.AnnouncesRows event ↔ s'.Partitioned ∧ Announced .idle s.rowMap s'.signals s'.rowMap :=
    ⟨fun h => h s' hs, fun h s'' hs' => by cases hs.symm.trans hs'; exact h⟩
  rw [hiff]
  cases event with
  | reset applications =>
    cases Option.some_inj.mp hs
    have hg := resetSource_groups applications { s with signals := [] }
    rw [and_iff_right hg.partitioned]
    exact ⟨resetSource_announced_iff applications (s := { s with signals := [] }) rfl, hg⟩
  | insertRows start applications =>
    have ⟨hle, hs⟩ := Option.ite_none_right_eq_some.mp hs
    cases hs
    have hg := @insertRows_eq _ start applications hstart hle ▸ hstart.insertRows_grouped hle
    rw [and_iff_right hg.partitioned]
    exact ⟨iff_of_true (insertRows_announced hstart hle rfl) trivial, hg⟩
  | removeRows first count =>
    have ⟨hle, hs⟩ := Option.ite_none_right_eq_some.mp hs
    cases hs
    have hg := hstart.removeRows_eq hle ▸ hstart.shrunk_groups hle
    rw [and_iff_right hg.partitioned]
    exact ⟨removeRows_announced_iff hstart hle rfl, hg⟩

theorem groups_empty : Groups {} :=
  singletons_grouped_iff.mpr .nil

theorem eachStep_announcesRows_iff (events : List SourceEvent) :
    Machine.EachStep step AnnouncesRows {} events ↔ Machine.EachStep step AnnouncesSafely {} events :=
  Machine.eachStep_iff groups_empty fun h hs => (h.step hs).imp_right fun h _ => h

def mailApplication : Application :=
  { applicationName := "Mail" }

-- The second notification of an application is announced as removed inside the reset.
theorem not_eachStep_announcesRows :
    ¬Machine.EachStep step AnnouncesRows {} [.reset [mailApplication, mailApplication]] := by
  intro h
  have ⟨_, hb, _, hf, _⟩ := ((h _ rfl).1 _ rfl).2
  cases hb
  cases hf

end NotificationGroupingProxyModel

end NotificationManager
