import Mathlib.Data.List.TakeDrop
import PlasmaModel.Klipper.Theorems.Consistent
import PlasmaModel.Lib.Rows

namespace Klipper.HistoryModel

variable {s s' : HistoryModel} {uuid : String} {uuids uuids' : List String} {now timestamp size : Int} {clip : Clip}
variable {n row count : Nat} {item : HistoryItem}

-- The last of the contents that are not starred have gone, no more of them than it takes to get down to a size.
def Evicts (s : HistoryModel) (size : Int) (before after : List String) : Prop :=
  ∃ kept evicted, before.filter (!s.isItemStarred ·) = kept ++ evicted ∧
    evicted.length ≤ (before.length - size).toNat ∧ after = before.filter (· ∉ evicted)

theorem Evicts.refl : s.Evicts size uuids uuids :=
  ⟨_, [], (List.append_nil _).symm, Nat.zero_le _, by simp⟩

theorem removeLast_spec {starred : String → Bool} (hn : s.uuids.Nodup)
    (hs : ∀ uuid ∈ s.uuids.take n, s.isItemStarred uuid = starred uuid) (now : Int) (count : Nat) :
    ∃ kept evicted, (s.uuids.take n).filter (!starred ·) = kept ++ evicted ∧ evicted.length ≤ count ∧
      (s.removeLast now n count).uuids = s.uuids.filter (· ∉ evicted) := by
  induction n generalizing s count
  case zero =>
    rw [removeLast]
    exact ⟨[], [], rfl, Nat.zero_le _, by simp⟩
  case succ n ih =>
    cases count with
    | zero => exact ⟨_, [], (List.append_nil _).symm, Nat.le_refl 0, by simp [removeLast]⟩
    | succ count =>
      rw [removeLast]
      rw [List.take_add_one] at hs ⊢
      have hs' (uuid : String) (hu : uuid ∈ s.uuids.take n) := hs uuid (List.mem_append_left _ hu)
      split
      case h_2 hi =>
        have hu : s.uuids[n]? = none := by rw [uuids, List.getElem?_map, hi, Option.map_none]
        rw [hu, Option.toList_none, List.append_nil]
        exact ih hn hs' (count + 1)
      case h_1 item hi =>
        have hu := getElem?_uuids hi
        have hstar : s.isItemStarred item.uuid = starred item.uuid := hs _ (List.mem_append_right _ (by simp [hu]))
        rw [hu, Option.toList_some, List.filter_append]
        split
        case isTrue hi =>
          rw [List.filter_cons_of_neg (by simp [← hstar, hi]), List.filter_nil, List.append_nil]
          exact ih hn hs' (count + 1)
        case isFalse hf =>
          obtain ⟨hlt, hu'⟩ := List.getElem?_eq_some_iff.mp hu
          have hremoved : (s.removeRow now n).uuids = s.uuids.eraseIdx n := uuids_removeRow hlt
          have htake : (s.uuids.eraseIdx n).take n = s.uuids.take n := List.take_eraseIdx_eq_take_of_le _ _ _ (Nat.le_refl n)
          have hne (uuid : String) (hm : uuid ∈ s.uuids.take n) : uuid ≠ item.uuid := by
            have hm := List.mem_of_mem_take (htake ▸ hm)
            rw [hn.eraseIdx_eq_filter hu] at hm
            exact of_decide_eq_true (List.mem_filter.mp hm).2
          have hstarred (uuid : String) (hm : uuid ∈ s.uuids.take n) :
              (s.removeRow now n).isItemStarred uuid = starred uuid := by
            rw [← hs' uuid hm]
            apply isItemStarred_removeRows
            · exact length_uuids ▸ hlt
            · rw [take_drop_one hi]
              exact fun h => hne uuid hm (List.mem_singleton.mp h)
          obtain ⟨kept, evicted, he, hl, hafter⟩ := @ih (s.removeRow now n) (by rw [hremoved]; exact hn.eraseIdx n)
            (by rw [hremoved, htake]; exact hstarred) count
          rw [hremoved, htake] at he
          refine ⟨kept, evicted ++ [item.uuid], ?_, ?_, ?_⟩
          · rw [he, List.filter_cons_of_pos (by simp [← hstar, hf]), List.filter_nil, List.append_assoc]
          · rw [List.length_append]
            exact Nat.succ_le_succ hl
          · rw [hafter, hremoved, hn.eraseIdx_eq_filter hu, List.filter_filter]
            exact List.filter_congr fun uuid _ => by simp [not_or]

theorem setMaxSize_evicts (h : s.Present s.uuids) (now size : Int) :
    s.Evicts size s.uuids (s.setMaxSize now size).uuids := by
  rw [setMaxSize]
  split
  case isTrue => exact .refl
  case isFalse =>
    dsimp only
    split
    case isFalse => exact .refl
    case isTrue =>
      have hspec := @removeLast_spec { s with maxSize := size } s.items.length s.isItemStarred h.nodup
        (fun _ _ => rfl) now (s.items.length - size).toNat
      have htake : s.uuids.take s.items.length = s.uuids := List.take_of_length_le (Nat.le_of_eq length_uuids)
      obtain ⟨kept, evicted, he, hl, hafter⟩ := hspec
      exact ⟨kept, evicted, htake ▸ he, length_uuids ▸ hl, hafter⟩

-- The eviction of one item among those that the new contents have joined.
theorem evicts_one {p : String} (hp : s.isItemStarred p = false) (above below : List String)
    (hn : (above ++ p :: below).Nodup) (hs : ∀ uuid ∈ below, s.isItemStarred uuid = true)
    (hl : size < (above ++ p :: below).length) : s.Evicts size (above ++ p :: below) (above ++ below) := by
  refine ⟨above.filter (!s.isItemStarred ·), [p], ?_, ?_, ?_⟩
  · have hbelow : below.filter (!s.isItemStarred ·) = [] :=
      List.filter_eq_nil_iff.mpr fun uuid hu => by simp [hs uuid hu]
    rw [List.filter_append, List.filter_cons_of_pos (by simp [hp]), hbelow]
  · rw [List.length_singleton]
    omega
  · have hne (uuid : String) (hm : uuid ∈ above ++ below) : uuid ≠ p := fun he =>
      (List.nodup_middle.mp hn).notMem (he ▸ hm)
    have hstay (uuids : List String) (hm : ∀ uuid ∈ uuids, uuid ∈ above ++ below) :
        uuids.filter (· ∉ [p]) = uuids :=
      List.filter_eq_self.mpr fun uuid hu => by simpa using hne uuid (hm uuid hu)
    rw [List.filter_append, List.filter_cons_of_neg (by simp), hstay above fun _ => List.mem_append_left _,
      hstay below fun _ => List.mem_append_right _]

-- What becomes of contents that an insertion takes.
structure Keeps (s : HistoryModel) (clip : Clip) (s' : HistoryModel) : Prop where
  first  : 0 < s.maxSize → s'.uuids.head? = some clip.uuid
  evicts : s.Evicts s.maxSize (clip.uuid :: s.uuids.erase clip.uuid) s'.uuids

theorem evict_startJob_keeps (h : s.Present s.uuids) (hc : s.Inserts clip) (hl : s.maxSize < s.items.length + 1) :
    s.Keeps clip (((s.prepend now clip).evict now).startJob timestamp clip) ↔
      (0 < s.maxSize → s.isItemStarred clip.uuid = true ∨ ∃ uuid ∈ s.uuids, s.isItemStarred uuid = false) := by
  have hn : (clip.uuid :: s.uuids).Nodup := List.nodup_cons.mpr ⟨hc.fresh, h.nodup⟩
  have hlen : s.maxSize < (clip.uuid :: s.uuids).length := by
    rw [List.length_cons, length_uuids]
    exact hl
  have herase : s.uuids.erase clip.uuid = s.uuids := List.erase_of_not_mem hc.fresh
  cases evict_prepend now clip s with
  | inl he =>
    have ⟨hs, he⟩ := he
    rw [he]
    split
    case isTrue hclip =>
      refine iff_of_true ⟨fun _ => ?_, ?_⟩ fun _ => .inl hclip
      · rw [uuids_startJob, uuids_prepend, List.head?_cons]
      · rw [uuids_startJob, uuids_prepend, herase]
        exact .refl
    case isFalse hclip =>
      have hgone : ¬(s.isItemStarred clip.uuid = true ∨ ∃ uuid ∈ s.uuids, s.isItemStarred uuid = false) :=
        not_or.mpr ⟨hclip, fun ⟨uuid, hm, hn⟩ => Bool.false_ne_true (hn.symm.trans (hs uuid hm))⟩
      constructor
      case mp =>
        intro hk hmax
        have hk := hk.first hmax
        rw [uuids_startJob, uuids_removeRow_prepend] at hk
        exact (hc.fresh (List.mem_of_mem_head? hk)).elim
      case mpr =>
        intro hmax
        refine ⟨fun hm => (hgone (hmax hm)).elim, ?_⟩
        rw [uuids_startJob, uuids_removeRow_prepend, herase]
        exact evicts_one (Bool.not_eq_true _ ▸ hclip) [] s.uuids hn hs hlen
  | inr he =>
    have ⟨row, item, hi, hnot, hs, he⟩ := he
    have hu := getElem?_uuids hi
    have ⟨hlt, hu'⟩ := List.getElem?_eq_some_iff.mp hu
    rw [he]
    refine iff_of_true ⟨fun _ => ?_, ?_⟩ fun _ => .inr ⟨item.uuid, List.mem_of_getElem? hu, hnot⟩
    · rw [uuids_startJob, uuids_evict_prepend hlt, List.head?_cons]
    · have hsplit : s.uuids = s.uuids.take row ++ item.uuid :: s.uuids.drop (row + 1) := by
        rw [← hu', List.cons_getElem_drop_succ, List.take_append_drop]
      rw [uuids_startJob, uuids_evict_prepend hlt, herase, List.eraseIdx_eq_take_drop_succ]
      rw [hsplit] at hn hlen
      have hone := evicts_one hnot (clip.uuid :: s.uuids.take row) _ hn hs hlen
      rw [List.cons_append, ← hsplit] at hone
      exact hone

theorem insert_keeps (h : s.Present s.uuids) (hi : (s.insert now timestamp clip).2 = true) :
    s.Keeps clip (s.insert now timestamp clip).1 ↔
      (s.Inserts clip → 0 < s.maxSize → s.maxSize < s.items.length + 1 →
        s.isItemStarred clip.uuid = true ∨ ∃ uuid ∈ s.uuids, s.isItemStarred uuid = false) := by
  by_cases hc : s.Inserts clip
  case pos =>
    rw [forall_prop_of_true hc, hc.insert_eq]
    by_cases hl : s.maxSize < s.items.length + 1
    case pos =>
      rw [if_pos hl]
      refine (evict_startJob_keeps h hc hl).trans ?_
      exact forall_congr' fun _ => ⟨fun h _ => h, fun h => h hl⟩
    case neg =>
      rw [if_neg hl]
      refine iff_of_true ⟨fun _ => ?_, ?_⟩ fun _ hlt => (hl hlt).elim
      · dsimp only
        rw [uuids_startJob, uuids_prepend, List.head?_cons]
      · dsimp only
        rw [uuids_startJob, uuids_prepend, List.erase_of_not_mem hc.fresh]
        exact .refl
  case neg =>
    refine iff_of_true ?_ fun hn => (hc hn).elim
    cases insert_cases now timestamp clip s hc with
    | inl he =>
      rw [he] at hi
      cases hi
    | inr he =>
      have ⟨_, row, hrow, he⟩ := he
      have ⟨hlt, hm, _⟩ := List.findIdx?_eq_some_iff_getElem.mp hrow
      have hitem := List.getElem?_eq_getElem hlt
      have hu : s.uuids[row]? = some clip.uuid := of_decide_eq_true hm ▸ getElem?_uuids hitem
      have ⟨hlt', hu'⟩ := List.getElem?_eq_some_iff.mp hu
      have huuids : (s.moveRowToTop now row).uuids = clip.uuid :: s.uuids.erase clip.uuid := by
        rw [uuids_moveRowToTop hitem, of_decide_eq_true hm, ← hu', h.nodup.erase_getElem]
      rw [he]
      refine ⟨fun _ => ?_, ?_⟩
      · rw [huuids, List.head?_cons]
      · rw [huuids]
        exact .refl

end Klipper.HistoryModel

namespace Klipper

-- The calls of a history whose jobs end before the next call, and restarts of its process.
inductive Request
  | call (call : Call) (error : Bool)
  | restart (keepContents : Bool) (rows : List Row)

namespace HistoryModel

variable {s s' : HistoryModel} {uuid : String} {keepContents error : Bool} {rows : List Row}

-- The rows are those that the query answers with.
def serve (s : HistoryModel) : Request → Option HistoryModel
  | .call call error => some ((s.call call).complete error)
  | .restart keepContents rows =>
    if (s.restart keepContents).Selects rows then some ((s.restart keepContents).loadHistory rows) else none

def Protects (s : HistoryModel) : Request → Prop
  | .call (.insert now timestamp clip) error =>
    (s.insert now timestamp clip).2 = true → s.Keeps clip ((s.call (.insert now timestamp clip)).complete error)
  | .call (.setMaxSize now size) error => s.Evicts size s.uuids ((s.setMaxSize now size).complete error).uuids
  | .call _ _ => True
  | .restart keepContents rows =>
    ∀ uuid ∈ s.uuids, s.isItemStarred uuid = true → uuid ∈ ((s.restart keepContents).loadHistory rows).uuids

-- New contents that are too many find some others that can go, or they are starred in a row that was left of them. The
-- contents are kept over a restart, with the starred ones among the first in the order of their last use.
def Spares (s : HistoryModel) : Request → Prop
  | .call (.insert _ _ clip) _ =>
    s.Inserts clip → 0 < s.maxSize → s.maxSize < s.items.length + 1 →
      s.isItemStarred clip.uuid = true ∨ ∃ uuid ∈ s.uuids, s.isItemStarred uuid = false
  | .call _ _ => True
  | .restart keepContents rows =>
    ∀ uuid ∈ s.uuids, s.isItemStarred uuid = true →
      keepContents = true ∧ (s.maxSize < 0 ∨ (rows.map Sigma.fst).idxOf uuid < s.maxSize)

theorem complete_frame (error : Bool) (s : HistoryModel) : ∃ aux, s.complete error = { s with aux, jobs := [] } := by
  have hfold (jobs : List UpdateDatabaseJob) (s : HistoryModel) :
      ∃ aux, jobs.foldl (fun s job => s.onDataDirReady job error) s = { s with aux } := by
    induction jobs generalizing s
    case nil => exact ⟨_, rfl⟩
    case cons job jobs ih =>
      have ⟨aux, ih⟩ := ih (s.onDataDirReady job error)
      rw [List.foldl_cons, ih, onDataDirReady]
      split <;> exact ⟨_, rfl⟩
  exact hfold s.jobs { s with jobs := [] }

theorem uuids_complete : (s.complete error).uuids = s.uuids := by
  have ⟨_, h⟩ := complete_frame error s
  rw [h]
  rfl

theorem main_complete : (s.complete error).main = s.main := by
  have ⟨_, h⟩ := complete_frame error s
  rw [h]

theorem Present.complete (h : s.Present s.uuids) : (s.complete error).Present (s.complete error).uuids := by
  rw [uuids_complete]
  refine h.mono fun _ hm => ?_
  rw [main_complete]
  exact hm

theorem Present.call (h : s.Present s.uuids) (call : Call) : (s.call call).Present (s.call call).uuids := by
  cases call with
  | insert now timestamp clip => exact h.insert now timestamp clip
  | removeRows now row count => exact h.removeRows_self now row count
  | setText now row text newUuid =>
    rw [HistoryModel.call]
    cases h.setText_cases now row text newUuid with
    | inl he =>
      rw [he]
      exact h
    | inr hr =>
      obtain ⟨_, hr⟩ := hr
      exact h.renamed hr
  | setStarred row value =>
    rw [HistoryModel.call]
    cases h.setStarred_cases row value with
    | inl he =>
      rw [he]
      exact h
    | inr hr =>
      obtain ⟨_, hr⟩ := hr
      have hu : (s.setStarred row value).uuids = s.uuids := congrArg (List.map HistoryItem.uuid) hr.items
      rw [hu]
      exact h.mono fun uuid => (hr.mem_main uuid).mpr
  | setMaxSize now size => exact h.setMaxSize now size
  | clearNonStarredHistory now => exact h.clearNonStarredHistory now
  | moveToTop now uuid =>
    rw [HistoryModel.call, moveToTop]
    split
    case h_1 => exact h.moveRowToTop _ _
    case h_2 => exact h

theorem Keeps.complete {clip : Clip} : s.Keeps clip (s'.complete error) ↔ s.Keeps clip s' := by
  have hu : (s'.complete error).uuids = s'.uuids := uuids_complete
  exact ⟨fun h => ⟨hu ▸ h.first, hu ▸ h.evicts⟩, fun h => ⟨hu ▸ h.first, hu ▸ h.evicts⟩⟩

theorem uuids_loadHistory (h : s.items = []) :
    (s.loadHistory rows).uuids = if s.maxSize = 0 then [] else (limit s.maxSize rows).map Sigma.fst := by
  rw [loadHistory]
  split
  case isTrue => rw [uuids, h, List.map_nil]
  case isFalse =>
    rw [uuids, List.map_map]
    rfl

theorem Selects.keys (h : s.Selects rows) : (rows.map Sigma.fst).Perm s.main.keys :=
  h.perm.map Sigma.fst

theorem Selects.mem_iff (h : s.Selects rows) : uuid ∈ rows.map Sigma.fst ↔ uuid ∈ s.main :=
  h.keys.mem_iff.trans AList.mem_keys

theorem mem_limit {maxSize : Int} (hm : uuid ∈ rows.map Sigma.fst) :
    uuid ∈ (limit maxSize rows).map Sigma.fst ↔ maxSize < 0 ∨ (rows.map Sigma.fst).idxOf uuid < maxSize := by
  rw [limit]
  split
  case isTrue hneg => exact iff_of_true hm (.inl hneg)
  case isFalse hneg =>
    rw [List.map_take, List.mem_take_iff_idxOf_lt hm, or_iff_right hneg]
    omega

theorem main_loadHistory : (s.loadHistory rows).main = s.main := by
  rw [loadHistory]
  split <;> rfl

theorem Selects.present (hs : s.Selects rows) (h : s.items = []) :
    (s.loadHistory rows).Present (s.loadHistory rows).uuids := by
  have hsub : (s.loadHistory rows).uuids.Sublist (rows.map Sigma.fst) := by
    rw [uuids_loadHistory h]
    split
    case isTrue => exact List.nil_sublist _
    case isFalse =>
      rw [limit]
      split
      case isTrue => exact .refl _
      case isFalse => exact (List.take_sublist _ _).map Sigma.fst
  refine ⟨(hs.keys.nodup_iff.mpr s.main.keys_nodup).sublist hsub, fun uuid hu => ?_⟩
  rw [main_loadHistory]
  exact hs.mem_iff.mp (hsub.subset hu)

theorem items_restart : (s.restart keepContents).items = [] := by
  rw [restart]
  split <;> rfl

theorem maxSize_restart : (s.restart keepContents).maxSize = s.maxSize := by
  rw [restart]
  split <;> rfl

theorem mem_restart (h : s.Present s.uuids) (hs : (s.restart keepContents).Selects rows) (hm : uuid ∈ s.uuids) :
    uuid ∈ ((s.restart keepContents).loadHistory rows).uuids ↔
      keepContents = true ∧ (s.maxSize < 0 ∨ (rows.map Sigma.fst).idxOf uuid < s.maxSize) := by
  rw [uuids_loadHistory items_restart, maxSize_restart]
  cases keepContents with
  | false =>
    refine iff_of_false (fun hu => ?_) fun hk => Bool.false_ne_true hk.1
    have hrows : rows = [] := List.perm_nil.mp hs.perm
    rw [hrows, limit, List.take_nil, ite_self, List.map_nil, ite_self] at hu
    cases hu
  | true =>
    rw [and_iff_right rfl]
    split
    case isTrue h0 =>
      rw [h0]
      refine iff_of_false List.not_mem_nil fun hn => ?_
      omega
    case isFalse => exact mem_limit (hs.mem_iff.mpr (h.mem_main uuid hm))

theorem Present.serve {request : Request} (h : s.Present s.uuids) (hs : s.serve request = some s') :
    (s.Protects request ↔ s.Spares request) ∧ s'.Present s'.uuids := by
  cases request with
  | call call error =>
    cases Option.some_inj.mp hs
    refine ⟨?_, (h.call call).complete⟩
    cases call with
    | insert now timestamp clip =>
      by_cases hi : (s.insert now timestamp clip).2 = true
      case pos => exact (forall_prop_of_true hi).trans (Keeps.complete.trans (insert_keeps h hi))
      case neg =>
        refine iff_of_true (fun hn => (hi hn).elim) fun hc => (hi ?_).elim
        rw [hc.insert_eq]
    | setMaxSize now size =>
      refine iff_of_true ?_ trivial
      rw [Protects, uuids_complete]
      exact setMaxSize_evicts h now size
    | removeRows | setText | setStarred | clearNonStarredHistory | moveToTop => exact Iff.rfl
  | restart keepContents rows =>
    rw [HistoryModel.serve] at hs
    have ⟨hrows, hs⟩ := Option.ite_none_right_eq_some.mp hs
    cases hs
    refine ⟨?_, hrows.present items_restart⟩
    exact forall₂_congr fun uuid hu => imp_congr_right fun _ => mem_restart h hrows hu

theorem eachStep_protects_iff (requests : List Request) :
    Machine.EachStep serve Protects {} requests ↔ Machine.EachStep serve Spares {} requests :=
  @Machine.eachStep_iff _ _ serve {} (fun s => s.Present s.uuids) Protects Spares requests
    ⟨List.nodup_nil, fun _ h => (List.not_mem_nil h).elim⟩ fun h hs => (h.serve hs).imp_right fun h _ => h

-- The only item that could go is the new one.
theorem not_eachStep_protects : ¬Machine.EachStep serve Protects {}
    [.call (.setMaxSize 0 1) false,
      .call (.insert 1 0 ⟨"a", ["text/plain"], "a", [⟨"text/plain", "a"⟩], by decide⟩) false,
      .call (.setStarred 0 true) false,
      .call (.insert 2 0 ⟨"b", ["text/plain"], "b", [⟨"text/plain", "b"⟩], by decide⟩) false] := by
  intro h
  have h := ((((h _ rfl).2 _ rfl).2 _ rfl).2 _ rfl).1 (by decide)
  have hfirst := h.first
  revert hfirst
  decide

end HistoryModel
end Klipper
