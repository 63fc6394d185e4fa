import Mathlib.Data.List.Count
import PlasmaModel.Klipper.Theorems.Tables

namespace Klipper.HistoryModel

variable {s s' : HistoryModel} {uuid : String} {uuids uuids' deleted : List String} {now timestamp : Int} {clip : Clip}
variable {row count : Nat}

-- The tables and the counter are those of a list of contents.
structure Agrees (uuids : List String) (s : HistoryModel) : Prop where
  nodup        : uuids.Nodup
  mem_main     : ∀ uuid, uuid ∈ s.main ↔ uuid ∈ uuids
  starredCount : s.starredCount = uuids.countP s.isItemStarred
  mem_aux      : ∀ key ∈ s.aux, key.1 ∈ s.main

def Consistent (s : HistoryModel) : Prop :=
  s.Agrees s.uuids

namespace Agrees

theorem changed {isTop : Bool} (h : s.Agrees uuids) : (s.changed now isTop).Agrees uuids := by
  refine ⟨h.nodup, fun uuid => mem_changed.trans (h.mem_main uuid), ?_, fun key hk => ?_⟩
  · have hc : uuids.countP (s.changed now isTop).isItemStarred = uuids.countP s.isItemStarred :=
      List.countP_congr fun uuid _ => by rw [isItemStarred_changed]
    rw [starredCount_changed, h.starredCount, hc]
  · rw [aux_changed] at hk
    exact mem_changed.mpr (h.mem_aux key hk)

theorem perm (h : s.Agrees uuids) (hp : uuids.Perm uuids') : s.Agrees uuids' where
  nodup := hp.nodup_iff.mp h.nodup
  mem_main uuid := (h.mem_main uuid).trans hp.mem_iff
  starredCount := h.starredCount.trans (congrArg Int.ofNat (hp.countP_eq _))
  mem_aux := h.mem_aux

theorem deleteRows (h : s.Agrees uuids) {starred : Int} (hn : uuids'.Nodup)
    (hm : ∀ uuid, uuid ∈ uuids' ↔ uuid ∈ uuids ∧ uuid ∉ deleted) (hs : starred = uuids'.countP s.isItemStarred) :
    { s.deleteRows deleted with starredCount := starred }.Agrees uuids' where
  nodup := hn
  mem_main uuid := by
    refine mem_deleteRows.trans ?_
    rw [h.mem_main, hm]
  starredCount := by
    refine hs.trans (congrArg Int.ofNat (List.countP_congr fun uuid hu => ?_))
    exact (congrArg (· = true) (isItemStarred_deleteRows ((hm uuid).mp hu).2)).symm.to_iff
  mem_aux key hk := by
    have ⟨hk, hn⟩ := mem_deleteAux.mp hk
    exact mem_deleteRows.mpr ⟨h.mem_aux key hk, hn⟩

theorem startJob (h : s.Agrees uuids) (hn : clip.uuid ∉ uuids) : (s.startJob now clip).Agrees (clip.uuid :: uuids) where
  nodup := List.nodup_cons.mpr ⟨hn, h.nodup⟩
  mem_main uuid := by rw [mem_startJob, h.mem_main, List.mem_cons]
  starredCount := by
    have hc : uuids.countP (s.startJob now clip).isItemStarred = uuids.countP s.isItemStarred :=
      List.countP_congr fun uuid _ => by rw [isItemStarred_startJob]
    have hf : (s.startJob now clip).isItemStarred clip.uuid = false :=
      isItemStarred_startJob.trans (not_isItemStarred fun hm => hn ((h.mem_main _).mp hm))
    rw [starredCount_startJob, h.starredCount, List.countP_cons_of_neg (by simp [hf]), hc]
  mem_aux key hk := by
    rw [aux_startJob] at hk
    exact mem_startJob.mpr (.inr (h.mem_aux key hk))

end Agrees

-- The rows that are removed may be those of other contents than the first ones of the list.
theorem Agrees.removeRows (hl : row + count ≤ s.items.length)
    (h : s.Agrees (((s.items.drop row).take count).map HistoryItem.uuid ++ uuids)) :
    (s.removeRows now row count).Agrees uuids := by
  rw [HistoryModel.removeRows, if_neg (Nat.not_lt.mpr hl)]
  apply Agrees.changed
  obtain ⟨_, hn, hd⟩ := List.nodup_append.mp h.nodup
  refine { h.deleteRows hn (fun uuid => ?_) ?_ with }
  · rw [List.mem_append]
    exact ⟨fun hu => ⟨.inr hu, fun hr => hd uuid hr uuid hu rfl⟩, fun hu => hu.1.resolve_left hu.2⟩
  · rw [h.starredCount, List.countP_append]
    omega

theorem Agrees.removeRow {item : HistoryItem} (hi : s.items[row]? = some item) (h : s.Agrees (item.uuid :: uuids)) :
    (s.removeRow now row).Agrees uuids := by
  have ⟨hlt, _⟩ := List.getElem?_eq_some_iff.mp hi
  apply Agrees.removeRows (Nat.succ_le_of_lt hlt)
  rw [take_drop_one hi]
  exact h

theorem countP_replace {p q : String → Bool} (old new : String)
    (h : ∀ uuid, uuid ∈ uuids ∨ uuid ∈ uuids' → q uuid = p uuid) :
    ((uuids ++ new :: uuids').countP q : Int) =
      (uuids ++ old :: uuids').countP p + ((if q new then 1 else 0) - if p old then 1 else 0) := by
  have hl : uuids.countP q = uuids.countP p := List.countP_congr fun uuid hu => by rw [h uuid (.inl hu)]
  have hr : uuids'.countP q = uuids'.countP p := List.countP_congr fun uuid hu => by rw [h uuid (.inr hu)]
  rw [List.countP_append, List.countP_append, List.countP_cons, List.countP_cons, hl, hr]
  cases q new <;> cases p old <;> simp <;> omega

namespace Consistent

theorem removeRows (h : s.Consistent) : (s.removeRows now row count).Consistent := by
  by_cases hl : row + count ≤ s.items.length
  case neg =>
    rw [HistoryModel.removeRows, if_pos (Nat.lt_of_not_le hl)]
    exact h
  case pos =>
    rw [Consistent, uuids_removeRows hl]
    exact Agrees.removeRows hl (h.perm (removed_append_perm s row count).symm)

theorem moveRowToTop (h : s.Consistent) : (s.moveRowToTop now row).Consistent := by
  rw [HistoryModel.moveRowToTop]
  split
  case h_2 => exact h
  case h_1 item hi =>
    rw [Consistent, uuids_changed]
    apply Agrees.changed
    obtain ⟨hlt, hi⟩ := List.getElem?_eq_some_iff.mp hi
    have hp : (item :: s.items.eraseIdx row).Perm s.items := hi ▸ List.getElem_cons_eraseIdx_perm hlt
    exact { h.perm (hp.map HistoryItem.uuid).symm with }

theorem moveToTop (h : s.Consistent) : (s.moveToTop now uuid).Consistent := by
  rw [HistoryModel.moveToTop]
  split
  case h_1 => exact h.moveRowToTop
  case h_2 => exact h

theorem removeLast (h : s.Consistent) : (s.removeLast now row count).Consistent := by
  induction row generalizing s count
  case zero =>
    rw [HistoryModel.removeLast]
    exact h
  case succ row ih =>
    cases count with
    | zero => exact h
    | succ count =>
      rw [HistoryModel.removeLast]
      split
      case h_2 => exact ih h
      case h_1 =>
        split
        case isTrue => exact ih h
        case isFalse => exact ih h.removeRows

theorem setMaxSize {size : Int} (h : s.Consistent) : (s.setMaxSize now size).Consistent := by
  rw [HistoryModel.setMaxSize]
  split
  case isTrue => exact h
  case isFalse =>
    have hs : { s with maxSize := size }.Consistent := { h with }
    dsimp only
    split
    case isTrue => exact hs.removeLast
    case isFalse => exact hs

theorem clearNonStarredHistory (h : s.Consistent) : (s.clearNonStarredHistory now).Consistent := by
  rw [HistoryModel.clearNonStarredHistory]
  dsimp only
  split
  case isTrue => exact h
  case isFalse =>
    rw [Consistent, uuids_changed]
    apply Agrees.changed
    have hu : (s.items.filter (·.uuid ∉ s.nonStarredUuids)).map HistoryItem.uuid =
        s.uuids.filter (· ∉ s.nonStarredUuids) := by
      rw [HistoryModel.uuids, List.filter_map]
      rfl
    have hs : ∀ uuid ∈ s.uuids, uuid ∉ s.nonStarredUuids ↔ s.isItemStarred uuid = true := by
      intro uuid hm
      rw [mem_nonStarredUuids, h.mem_main, and_iff_right hm, Bool.not_eq_false]
    have ha : (s.deleteRows s.nonStarredUuids).Agrees (s.uuids.filter (· ∉ s.nonStarredUuids)) := by
      refine h.deleteRows (h.nodup.filter _) (fun uuid => ?_) ?_
      · rw [List.mem_filter, decide_eq_true_eq]
      · rw [h.starredCount, List.countP_filter]
        refine congrArg Int.ofNat (List.countP_congr fun uuid hm => ?_)
        rw [Bool.and_eq_true, decide_eq_true_eq, hs uuid hm, and_self]
    change Agrees ((s.items.filter (·.uuid ∉ s.nonStarredUuids)).map HistoryItem.uuid) _
    rw [hu]
    exact { ha with }

theorem present (h : s.Consistent) : s.Present s.uuids where
  nodup := h.nodup
  mem_main uuid := (h.mem_main uuid).mpr

theorem renamed {old new : String} (h : s.Consistent) (hr : Renamed old new s s') : s'.Consistent := by
  have ⟨above, below, hu, hu'⟩ := hr.uuids
  have hne (uuid : String) (hm : uuid ∈ above ++ below) := h.present.ne_renamed hr hu hm
  have hp := h.present.renamed hr
  refine ⟨hp.nodup, fun uuid => ⟨fun hm => ?_, hp.mem_main uuid⟩, ?_, fun key hk => (hr.mem_main key.1).mpr ?_⟩
  · rw [hu', List.mem_append, List.mem_cons, or_left_comm, ← List.mem_append]
    refine ((hr.mem_main uuid).mp hm).imp_right fun ⟨hne, hm⟩ => ?_
    rw [h.mem_main, hu, List.mem_append, List.mem_cons, or_left_comm, ← List.mem_append] at hm
    exact hm.resolve_left hne
  · have hc := countP_replace (p := s.isItemStarred) (q := s'.isItemStarred) old new fun uuid hm => by
      have ⟨hold, hnew⟩ := hne uuid (List.mem_append.mpr hm)
      rw [hr.isItemStarred, if_neg hnew, if_neg hold]
    rw [hr.starredCount, h.starredCount, hu', hc, hr.isItemStarred, if_pos rfl, Int.sub_self, Int.add_zero, hu]
  · exact (hr.mem_aux key hk).imp_right fun hk => ⟨hk.1, h.mem_aux key hk.2⟩

theorem setStarred {value : Bool} (h : s.Consistent) : (s.setStarred row value).Consistent := by
  cases h.present.setStarred_cases row value with
  | inl he =>
    rw [he]
    exact h
  | inr hr =>
    have ⟨changed, hr⟩ := hr
    have hu : (s.setStarred row value).uuids = s.uuids := congrArg (List.map HistoryItem.uuid) hr.items
    have ⟨above, below, ha⟩ := List.append_of_mem hr.mem_uuids
    have hn := h.nodup
    rw [ha] at hn
    rw [Consistent, hu]
    refine ⟨h.nodup, fun uuid => (hr.mem_main uuid).trans (h.mem_main uuid), ?_, fun key hk => ?_⟩
    · have hc := countP_replace (p := s.isItemStarred) (q := (s.setStarred row value).isItemStarred) changed changed
        fun uuid hm => by
          rw [hr.isItemStarred, if_neg]
          rintro rfl
          exact (List.nodup_middle.mp hn).notMem (List.mem_append.mpr hm)
      have hd := hr.differs
      rw [hr.starredCount, h.starredCount, ha, hc, hr.isItemStarred, if_pos rfl]
      cases value <;> simp_all
    · exact (hr.mem_main key.1).mpr (h.mem_aux key (hr.aux ▸ hk))

theorem setText {text newUuid : String} (h : s.Consistent) : (s.setText now row text newUuid).Consistent := by
  cases h.present.setText_cases now row text newUuid with
  | inl he =>
    rw [he]
    exact h
  | inr hr =>
    have ⟨_, hr⟩ := hr
    exact h.renamed hr

end Consistent

end Klipper.HistoryModel

namespace Klipper.HistoryModel

variable {s s' : HistoryModel} {uuid : String} {uuids uuids' : List String} {now timestamp : Int} {clip : Clip}
variable {n row count : Nat} {item : HistoryItem}

-- The item of row `n` is none of those that can be evicted.
theorem lastNonStarred_succ (n : Nat) (s : HistoryModel) :
    (∃ item, s.items[n]? = some item ∧ s.isItemStarred item.uuid = false ∧ s.lastNonStarred (n + 1) = some n) ∨
      (∀ uuid ∈ s.uuids[n]?, s.isItemStarred uuid = true) ∧ s.lastNonStarred (n + 1) = s.lastNonStarred n := by
  rw [lastNonStarred, uuids, List.getElem?_map]
  cases hi : s.items[n]? with
  | none => exact .inr ⟨fun uuid hu => (Option.not_mem_none _ hu).elim, rfl⟩
  | some item =>
    cases hs : s.isItemStarred item.uuid with
    | false => exact .inl ⟨item, rfl, hs, if_neg (Bool.not_eq_true _ ▸ hs)⟩
    | true =>
      refine .inr ⟨fun uuid hu => ?_, if_pos hs⟩
      cases Option.mem_some_iff.mp hu
      exact hs

theorem lastNonStarred_some (h : s.lastNonStarred n = some row) :
    row < n ∧ (∃ item, s.items[row]? = some item ∧ s.isItemStarred item.uuid = false) ∧
      ∀ uuid ∈ (s.uuids.take n).drop (row + 1), s.isItemStarred uuid = true := by
  induction n
  case zero => cases h
  case succ n ih =>
    cases lastNonStarred_succ n s with
    | inl hn =>
      have ⟨item, hi, hs, he⟩ := hn
      cases he.symm.trans h
      refine ⟨Nat.lt_succ_self _, ⟨item, hi, hs⟩, ?_⟩
      rw [List.drop_eq_nil_of_le (List.length_take_le _ _)]
      exact fun uuid hu => (List.not_mem_nil hu).elim
    | inr hn =>
      have ⟨hs, he⟩ := hn
      have ⟨hlt, hi, hall⟩ := ih (he ▸ h)
      refine ⟨Nat.lt_succ_of_lt hlt, hi, fun uuid hu => ?_⟩
      rw [List.take_add_one, List.drop_append] at hu
      cases List.mem_append.mp hu with
      | inl hu => exact hall uuid hu
      | inr hu => exact hs uuid (Option.mem_toList.mp (List.mem_of_mem_drop hu))

theorem lastNonStarred_none (h : s.lastNonStarred n = none) : ∀ uuid ∈ s.uuids.take n, s.isItemStarred uuid = true := by
  induction n
  case zero => simp
  case succ n ih =>
    cases lastNonStarred_succ n s with
    | inl hn =>
      have ⟨_, _, _, he⟩ := hn
      cases he.symm.trans h
    | inr hn =>
      have ⟨hs, he⟩ := hn
      rw [List.take_add_one]
      intro uuid hu
      cases List.mem_append.mp hu with
      | inl hu => exact ih (he ▸ h) uuid hu
      | inr hu => exact hs uuid (Option.mem_toList.mp hu)

-- The last item that is not starred goes, if there is one.
theorem evict_cases (now : Int) (s : HistoryModel) :
    s.evict now = s ∧ (∀ uuid ∈ s.uuids, s.isItemStarred uuid = true) ∨
      ∃ row item, s.evict now = s.removeRow now row ∧ s.items[row]? = some item ∧
        s.isItemStarred item.uuid = false ∧ ∀ uuid ∈ s.uuids.drop (row + 1), s.isItemStarred uuid = true := by
  have htake : s.uuids.take s.items.length = s.uuids := List.take_of_length_le (Nat.le_of_eq (List.length_map _))
  rw [evict]
  cases h : s.lastNonStarred s.items.length with
  | none => exact .inl ⟨rfl, htake ▸ lastNonStarred_none h⟩
  | some row =>
    have ⟨_, ⟨item, hi, hs⟩, hall⟩ := lastNonStarred_some h
    rw [htake] at hall
    exact .inr ⟨row, item, rfl, hi, hs, hall⟩

-- The contents are new to the history and come to its first row.
structure Inserts (s : HistoryModel) (clip : Clip) : Prop where
  maxSize : s.maxSize ≠ 0
  fresh   : clip.uuid ∉ s.uuids
  formats : clip.formats ≠ [] ∧ clip.formats.length ≤ 50

def prepend (now : Int) (clip : Clip) (s : HistoryModel) : HistoryModel :=
  { s with items := ⟨clip.uuid, clip.formats, clip.text⟩ :: s.items }.changed now true

theorem items_prepend : (s.prepend now clip).items = ⟨clip.uuid, clip.formats, clip.text⟩ :: s.items :=
  items_changed

theorem uuids_prepend : (s.prepend now clip).uuids = clip.uuid :: s.uuids :=
  uuids_changed

theorem isItemStarred_prepend : (s.prepend now clip).isItemStarred uuid = s.isItemStarred uuid :=
  isItemStarred_changed

-- The new contents take part in the eviction: they go themselves if all the others are starred and they are not.
theorem evict_prepend (now : Int) (clip : Clip) (s : HistoryModel) :
    (∀ uuid ∈ s.uuids, s.isItemStarred uuid = true) ∧
        (s.prepend now clip).evict now =
          (if s.isItemStarred clip.uuid then s.prepend now clip else (s.prepend now clip).removeRow now 0) ∨
      ∃ row item, s.items[row]? = some item ∧ s.isItemStarred item.uuid = false ∧
        (∀ uuid ∈ s.uuids.drop (row + 1), s.isItemStarred uuid = true) ∧
          (s.prepend now clip).evict now = (s.prepend now clip).removeRow now (row + 1) := by
  have hcases := evict_cases now (s.prepend now clip)
  simp only [items_prepend, uuids_prepend, isItemStarred_prepend] at hcases
  cases hcases with
  | inl h =>
    have ⟨he, hs⟩ := h
    refine .inl ⟨fun uuid hu => hs uuid (List.mem_cons_of_mem _ hu), ?_⟩
    rw [if_pos (hs _ List.mem_cons_self), he]
  | inr h =>
    have ⟨row, item, he, hi, hn, hs⟩ := h
    cases row with
    | zero =>
      cases Option.some_inj.mp hi
      refine .inl ⟨hs, ?_⟩
      rw [if_neg (Bool.not_eq_true _ ▸ hn), he]
    | succ row => exact .inr ⟨row, item, hi, hn, hs, he⟩

-- What is left of the contents without the new ones.
theorem uuids_evict_prepend (hl : row < s.uuids.length) :
    ((s.prepend now clip).removeRow now (row + 1)).uuids = clip.uuid :: s.uuids.eraseIdx row := by
  have hu : (s.prepend now clip).uuids = clip.uuid :: s.uuids := uuids_prepend
  rw [uuids_removeRow (by rw [hu]; exact Nat.succ_lt_succ hl), hu, List.eraseIdx_cons_succ]

theorem uuids_removeRow_prepend : ((s.prepend now clip).removeRow now 0).uuids = s.uuids := by
  have hu : (s.prepend now clip).uuids = clip.uuid :: s.uuids := uuids_prepend
  rw [uuids_removeRow (by rw [hu]; exact Nat.succ_pos _), hu, List.eraseIdx_cons_zero]

theorem indexOf_eq_none (h : uuid ∉ s.uuids) : s.indexOf uuid = none := by
  rw [indexOf, List.findIdx?_eq_none_iff]
  intro item hi
  exact decide_eq_false fun he => h (he ▸ List.mem_map_of_mem hi)

theorem Inserts.insert_eq (h : s.Inserts clip) : s.insert now timestamp clip =
    (((if s.maxSize < s.items.length + 1 then (s.prepend now clip).evict now else s.prepend now clip).startJob
      (if timestamp = 0 then now else timestamp) clip), true) := by
  have hf : ¬(clip.formats = [] ∨ 50 < clip.formats.length) :=
    not_or.mpr ⟨h.formats.1, Nat.not_lt.mpr h.formats.2⟩
  rw [insert, if_neg h.maxSize, indexOf_eq_none h.fresh]
  dsimp only
  rw [if_neg hf, maxSize_changed, items_changed, prepend]
  rfl

-- Otherwise the contents are there already, or nothing is inserted.
theorem insert_cases (now timestamp : Int) (clip : Clip) (s : HistoryModel) (h : ¬s.Inserts clip) :
    s.insert now timestamp clip = (s, false) ∨
      s.maxSize ≠ 0 ∧ ∃ row, s.indexOf clip.uuid = some row ∧
        s.insert now timestamp clip = (s.moveRowToTop now row, true) := by
  rw [insert]
  split
  case isTrue => exact .inl rfl
  case isFalse hmax =>
    split
    case h_1 row hi => exact .inr ⟨hmax, row, hi, rfl⟩
    case h_2 hi =>
      have hfresh : clip.uuid ∉ s.uuids := by
        intro hm
        have ⟨item, hm, he⟩ := List.mem_map.mp hm
        exact of_decide_eq_false (List.findIdx?_eq_none_iff.mp hi item hm) he
      split
      case isTrue => exact .inl rfl
      case isFalse hf =>
        have ⟨hne, hle⟩ := not_or.mp hf
        exact (h ⟨hmax, hfresh, hne, Nat.not_lt.mp hle⟩).elim

theorem uuids_startJob : (s.startJob now clip).uuids = s.uuids :=
  congrArg (List.map HistoryItem.uuid) items_startJob

theorem items_prepend_succ (hi : s.items[row]? = some item) : (s.prepend now clip).items[row + 1]? = some item := by
  rw [items_prepend, List.getElem?_cons_succ, hi]

theorem getElem?_uuids (hi : s.items[row]? = some item) : s.uuids[row]? = some item.uuid := by
  rw [uuids, List.getElem?_map, hi, Option.map_some]

namespace Present

theorem prepend (h : s.Present s.uuids) : (s.prepend now clip).Present s.uuids :=
  h.mono fun _ hm => mem_changed.mpr hm

theorem evict_startJob (h : s.Present s.uuids) (hc : s.Inserts clip) :
    (((s.prepend now clip).evict now).startJob timestamp clip).Present
      (((s.prepend now clip).evict now).startJob timestamp clip).uuids := by
  rw [uuids_startJob]
  cases evict_prepend now clip s with
  | inl he =>
    rw [he.2]
    split
    case isTrue =>
      rw [uuids_prepend]
      exact h.prepend.startJob hc.fresh
    case isFalse =>
      have hfirst : (s.prepend now clip).items[0]? = some ⟨clip.uuid, clip.formats, clip.text⟩ := by
        rw [items_prepend, List.getElem?_cons_zero]
      rw [uuids_removeRow_prepend]
      exact (h.prepend.removeRow hfirst hc.fresh).mono fun _ hm => mem_startJob.mpr (.inr hm)
  | inr he =>
    have ⟨row, item, hi, _, _, he⟩ := he
    have ⟨hlt, hu⟩ := List.getElem?_eq_some_iff.mp (getElem?_uuids hi)
    have hn : (item.uuid :: s.uuids.eraseIdx row).Nodup :=
      (hu ▸ List.getElem_cons_eraseIdx_perm hlt).nodup_iff.mpr h.nodup
    rw [he, uuids_evict_prepend hlt]
    apply Present.startJob
    · exact (h.prepend.sublist (List.eraseIdx_sublist _ _)).removeRow (items_prepend_succ hi) hn.notMem
    · exact fun hm => hc.fresh (List.mem_of_mem_eraseIdx hm)

theorem insert (h : s.Present s.uuids) (now timestamp : Int) (clip : Clip) :
    (s.insert now timestamp clip).1.Present (s.insert now timestamp clip).1.uuids := by
  by_cases hc : s.Inserts clip
  case neg =>
    cases insert_cases now timestamp clip s hc with
    | inl he =>
      rw [he]
      exact h
    | inr he =>
      have ⟨_, row, _, he⟩ := he
      rw [he]
      exact h.moveRowToTop now row
  case pos =>
    rw [hc.insert_eq]
    by_cases hlt : s.maxSize < s.items.length + 1
    case pos =>
      rw [if_pos hlt]
      exact h.evict_startJob hc
    case neg =>
      rw [if_neg hlt]
      dsimp only
      rw [uuids_startJob, uuids_prepend]
      exact h.prepend.startJob hc.fresh

end Present

end Klipper.HistoryModel

namespace Klipper.HistoryModel

variable {s s' : HistoryModel} {uuid : String} {now timestamp : Int} {clip : Clip} {i row : Nat} {error : Bool}

inductive Event
  | call (call : Call)
  | dataDirReady (i : Nat) (error : Bool)

-- Some call of the history, or a step of a job that has started at any time before it.
def step (s : HistoryModel) : Event → Option HistoryModel
  | .call call => some (s.call call)
  | .dataDirReady i error => s.jobs[i]?.map fun job => { s with jobs := s.jobs.eraseIdx i }.onDataDirReady job error

-- New contents that are too many find some others that can go, and the contents of a job are there when it goes on.
def KeepsTables (s : HistoryModel) : Event → Prop
  | .call (.insert _ _ clip) =>
    s.Inserts clip → s.maxSize < s.items.length + 1 → ∃ uuid ∈ s.uuids, s.isItemStarred uuid = false
  | .call _ => True
  | .dataDirReady i error => error = false → ∀ job ∈ s.jobs[i]?, job.uuid ∈ s.main

namespace Consistent

theorem prepend (h : s.Consistent) : (s.prepend now clip).Agrees s.uuids :=
  Agrees.changed { h with }

theorem notMem_main (h : s.Consistent) (hc : s.Inserts clip) : clip.uuid ∉ s.main :=
  fun hm => hc.fresh ((h.mem_main _).mp hm)

theorem evict_startJob (h : s.Consistent) (hc : s.Inserts clip) :
    (((s.prepend now clip).evict now).startJob timestamp clip).Consistent ↔
      ∃ uuid ∈ s.uuids, s.isItemStarred uuid = false := by
  cases evict_prepend now clip s with
  | inl he =>
    have ⟨hs, he⟩ := he
    rw [he, if_neg (Bool.not_eq_true _ ▸ not_isItemStarred (h.notMem_main hc))]
    refine iff_of_false (fun hn => hc.fresh ?_) fun ⟨uuid, hm, hn⟩ => Bool.false_ne_true (hn.symm.trans (hs uuid hm))
    rw [← @uuids_removeRow_prepend s now clip, ← uuids_startJob]
    exact (hn.mem_main _).mp (mem_startJob.mpr (.inl rfl))
  | inr he =>
    have ⟨row, item, hi, hn, hs, he⟩ := he
    have hu := getElem?_uuids hi
    have ⟨hlt, hu'⟩ := List.getElem?_eq_some_iff.mp hu
    refine iff_of_true ?_ ⟨item.uuid, List.mem_of_getElem? hu, hn⟩
    have hperm : s.uuids.Perm (item.uuid :: s.uuids.eraseIdx row) := hu' ▸ (List.getElem_cons_eraseIdx_perm hlt).symm
    rw [he, Consistent, uuids_startJob, uuids_evict_prepend hlt]
    apply Agrees.startJob
    · exact (h.prepend.perm hperm).removeRow (items_prepend_succ hi)
    · exact fun hm => hc.fresh (List.mem_of_mem_eraseIdx hm)

theorem insert (h : s.Consistent) (hc : s.Inserts clip) : (s.insert now timestamp clip).1.Consistent ↔
    (s.maxSize < s.items.length + 1 → ∃ uuid ∈ s.uuids, s.isItemStarred uuid = false) := by
  rw [hc.insert_eq]
  by_cases hlt : s.maxSize < s.items.length + 1
  case pos =>
    rw [if_pos hlt, forall_prop_of_true hlt]
    exact h.evict_startJob hc
  case neg =>
    rw [if_neg hlt]
    refine iff_of_true ?_ fun hn => (hlt hn).elim
    dsimp only
    rw [Consistent, uuids_startJob, uuids_prepend]
    exact h.prepend.startJob hc.fresh

theorem onDataDirReady {job : UpdateDatabaseJob} (h : s.Consistent) :
    (s.onDataDirReady job error).Consistent ↔ (error = false → job.uuid ∈ s.main) := by
  cases error with
  | true => exact iff_of_true h Bool.noConfusion
  | false =>
    rw [forall_prop_of_true rfl]
    constructor
    case mp =>
      intro hn
      have ⟨data, hd⟩ := List.exists_mem_of_ne_nil _ job.nonempty
      exact hn.mem_aux (job.uuid, data.type) (mem_insertAux.mpr (.inr ⟨rfl, List.mem_map_of_mem hd⟩))
    case mpr =>
      intro hm
      refine { h with mem_aux := fun key hk => ?_ }
      cases mem_insertAux.mp hk with
      | inl hk => exact h.mem_aux key hk
      | inr hk => exact hk.1 ▸ hm

theorem step {event : Event} (h : s.Consistent) (hs : s.step event = some s') :
    s'.Consistent ↔ s.KeepsTables event := by
  cases event with
  | dataDirReady i error =>
    have ⟨job, hj, hs⟩ := Option.map_eq_some_iff.mp hs
    have herased : { s with jobs := s.jobs.eraseIdx i }.Consistent := { h with }
    rw [← hs, herased.onDataDirReady, KeepsTables, hj]
    refine imp_congr_right fun _ => ⟨fun hm job hj => ?_, fun hm => hm job rfl⟩
    exact Option.some_inj.mp hj ▸ hm
  | call call =>
    cases Option.some_inj.mp hs
    cases call with
    | insert now timestamp clip =>
      by_cases hc : s.Inserts clip
      case pos => rw [KeepsTables, forall_prop_of_true hc, HistoryModel.call, h.insert hc]
      case neg =>
        refine iff_of_true ?_ fun hn => (hc hn).elim
        rw [HistoryModel.call]
        cases insert_cases now timestamp clip s hc with
        | inl he => exact he ▸ h
        | inr he =>
          have ⟨_, row, _, he⟩ := he
          exact he ▸ h.moveRowToTop
    | removeRows => exact iff_of_true h.removeRows trivial
    | setText => exact iff_of_true h.setText trivial
    | setStarred => exact iff_of_true h.setStarred trivial
    | setMaxSize => exact iff_of_true h.setMaxSize trivial
    | clearNonStarredHistory => exact iff_of_true h.clearNonStarredHistory trivial
    | moveToTop => exact iff_of_true h.moveToTop trivial

theorem empty : Consistent {} where
  nodup := List.nodup_nil
  mem_main _ := iff_of_false (AList.notMem_empty _) List.not_mem_nil
  starredCount := rfl
  mem_aux _ h := (AList.notMem_empty _ h).elim

end Consistent

end Klipper.HistoryModel
